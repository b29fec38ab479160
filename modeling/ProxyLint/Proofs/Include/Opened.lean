import ProxyLint.Proofs.Include.Forest

set_option relaxedAutoImplicit false
set_option autoImplicit false

/-!
# The files that a resolution opens

A text that is resolved opens the files that its includes name, and these open others. Each file
is opened for an include of a file that has been opened before: its lines and its faults are
written down under its own name, with the name of that other file beside it. Nothing else that
stands in the tree has a part in the resolution.

## Main definitions

* `ProxyLint.Include.Resolver.Opened` — the files that are opened, each with its text, its name
  and the name of the file whose include has opened it.

## Main results

* `ProxyLint.Include.Resolver.file_of_enter_mem_script` — the includes of a script are written in
  its file.
* `ProxyLint.Include.Grows.exists_opened` — each line and each fault of a forest is one of the
  script of a file that has been opened.
* `ProxyLint.Include.Resolver.Opened.exists_grows` — and each script of such a file has grown into
  a part of the forest.
-/

namespace ProxyLint.Include

namespace Resolver

variable {r : Resolver} {t : FileTree} {text file : String} {includedFrom? : Option String}

/-! ### Includes of a script -/

/-- An include that names nothing is recorded as a fault, or the script gives up. -/
lemma report_or_stop_of_mem_noMatchScript {q : Request} {a : Action}
    (h : a ∈ r.noMatchScript q) : (∃ f, a = .report f) ∨ ∃ why, a = .stop why := by
  unfold noMatchScript at h
  cases hd : r.dialect <;> rw [hd] at h <;> dsimp only at h <;> split at h <;> simp_all

/-- Files are opened for the include whose actions they are. -/
lemma eq_of_enter_mem_requestScript {q q' : Request} {path : String}
    (h : .enter path q' ∈ r.requestScript t q) : q' = q := by
  unfold requestScript at h
  rcases hm : r.matches? t q with _ | _ | ⟨first, rest⟩ <;> rw [hm] at h
  · simp at h
  · rcases report_or_stop_of_mem_noMatchScript h with ⟨f, hf⟩ | ⟨why, hf⟩ <;> cases hf
  · obtain ⟨p, -, hp⟩ := List.mem_flatMap.1 h
    unfold matchScript at hp
    split at hp
    · simp_all
    · cases hd : r.dialect <;> rw [hd] at hp
      · simp at hp
      · simp_all

/-- The include of a target is written in the file of the target. -/
lemma file_of_enter_mem_targetScript {target : List Char} {isOptional : Bool} {source : Source}
    {path : String} {q : Request}
    (h : .enter path q ∈ r.targetScript t target isOptional file source) : q.file = file := by
  unfold targetScript at h
  dsimp only at h
  split at h
  · simp at h
  · rw [eq_of_enter_mem_requestScript h]

/-- Every include of a script is written in its file. -/
lemma file_of_enter_mem_script {path : String} {q : Request}
    (h : .enter path q ∈ r.script t text file includedFrom?) : q.file = file := by
  obtain ⟨line, -, hline⟩ := List.mem_flatMap.1 h
  unfold lineScript at hline
  dsimp only at hline
  split at hline
  · cases hline
  · cases hd : r.dialect <;> rw [hd] at hline <;> dsimp only at hline
    · obtain ⟨p, -, hp⟩ := List.mem_flatMap.1 hline
      cases p with
      | text content => simp [pieceScript] at hp
      | target target => exact file_of_enter_mem_targetScript hp
    · rcases hdir : directive? (Text.strip line.2) with _ | d <;> rw [hdir] at hline
      · simp at hline
      · exact file_of_enter_mem_targetScript hline

/-! ### Open files -/

/-- The files that are opened when `text` is resolved under the name `file`: each with its text,
with the name that it is opened under, and with the name of the file whose include has opened it.
The first one is `text` itself, which no include has opened. -/
inductive Opened (r : Resolver) (t : FileTree) (text file : String) :
    String → String → Option String → Prop where
  | start : Opened r t text file text file none
  | enter {outer name path inner : String} {includedFrom? : Option String} {q : Request} :
    Opened r t text file outer name includedFrom? →
    .enter path q ∈ r.script t outer name includedFrom? → t.read? path = some inner →
    Opened r t text file inner (r.nameOf path) (some name)

end Resolver

namespace Grows

variable {r : Resolver} {t : FileTree} {as : List Action} {F : Forest}

/-- **Each line and each fault of a forest is one of the script of a file that has been opened**,
if the forest has grown from a part of such a script.

**Proof sketch.** Induction on the growth. A line or a fault of the script itself is one of the
file that is open; where a file is entered, it has been opened for an include that is written in
the open file (`Resolver.file_of_enter_mem_script`). -/
theorem exists_opened (h : Grows r t as F) {text file outer name : String}
    {includedFrom? : Option String} (hopen : r.Opened t text file outer name includedFrom?)
    (hpart : as ⊆ r.script t outer name includedFrom?) :
    (∀ l ∈ F.lines, ∃ inner name includedFrom? content source,
      r.Opened t text file inner name includedFrom? ∧
      .emit content source ∈ r.script t inner name includedFrom? ∧
      l = ⟨String.ofList content, source⟩) ∧
    ∀ f ∈ F.findings, ∃ inner name includedFrom?,
      r.Opened t text file inner name includedFrom? ∧
      .report f ∈ r.script t inner name includedFrom? := by
  induction h generalizing outer name includedFrom? with
  | nil =>
    refine ⟨fun l hl => ?_, fun f hf => ?_⟩
    · cases hl
    · cases hf
  | emit _ ih =>
    obtain ⟨hhere, hrest⟩ := List.cons_subset.1 hpart
    obtain ⟨hlines, hfindings⟩ := ih hopen hrest
    refine ⟨fun l hl => ?_, hfindings⟩
    rcases List.mem_cons.1 hl with rfl | hl
    · exact ⟨outer, name, includedFrom?, _, _, hopen, hhere, rfl⟩
    · exact hlines l hl
  | report _ ih =>
    obtain ⟨hhere, hrest⟩ := List.cons_subset.1 hpart
    obtain ⟨hlines, hfindings⟩ := ih hopen hrest
    refine ⟨hlines, fun f hf => ?_⟩
    rcases List.mem_cons.1 hf with rfl | hf
    · exact ⟨outer, name, includedFrom?, hopen, hhere⟩
    · exact hfindings f hf
  | enter htext _ _ ihin ih =>
    obtain ⟨hhere, hrest⟩ := List.cons_subset.1 hpart
    have hinner := hopen.enter hhere htext
    rw [Resolver.file_of_enter_mem_script hhere] at ihin
    obtain ⟨hlines, hfindings⟩ := ih hopen hrest
    obtain ⟨hlines', hfindings'⟩ := ihin hinner (List.Subset.refl _)
    refine ⟨fun l hl => ?_, fun f hf => ?_⟩
    · exact (List.mem_append.1 hl).elim (hlines' l) (hlines l)
    · exact (List.mem_append.1 hf).elim (hfindings' f) (hfindings f)

/-- What grows where a file is entered is a part of the whole. -/
lemma exists_grows_of_enter_mem (h : Grows r t as F) {path text : String} {q : Request}
    (hmem : .enter path q ∈ as) (htext : t.read? path = some text) :
    ∃ G, Grows r t (r.script t text (r.nameOf path) (some q.file)) G ∧
      G.lines ⊆ F.lines ∧ G.findings ⊆ F.findings := by
  obtain ⟨before, after, rfl⟩ := List.append_of_mem hmem
  obtain ⟨F₁, F₂, rfl, -, h₂⟩ := h.of_append
  cases h₂ with
  | @enter _ text' _ _ I F₃ htext' hin _ =>
    rw [htext] at htext'
    cases htext'
    refine ⟨I, hin, ?_, ?_⟩
    · rw [Forest.lines_append]
      exact List.subset_append_of_subset_right _ (List.subset_append_left _ _)
    · rw [Forest.findings_append]
      exact List.subset_append_of_subset_right _ (List.subset_append_left _ _)

end Grows

/-- **The script of each file that is opened grows into a part of the forest**: whatever is opened
has been carried out by the end of a resolution that ends. -/
theorem Resolver.Opened.exists_grows {r : Resolver} {t : FileTree}
    {text file inner name : String} {includedFrom? : Option String} {F : Forest}
    (h : r.Opened t text file inner name includedFrom?)
    (hF : Grows r t (r.script t text file none) F) :
    ∃ G, Grows r t (r.script t inner name includedFrom?) G ∧
      G.lines ⊆ F.lines ∧ G.findings ⊆ F.findings := by
  induction h with
  | start => exact ⟨F, hF, List.Subset.refl _, List.Subset.refl _⟩
  | enter _ hmem hread ih =>
    obtain ⟨G, hG, hlines, hfindings⟩ := ih
    obtain ⟨I, hI, hlines', hfindings'⟩ := hG.exists_grows_of_enter_mem hmem hread
    rw [file_of_enter_mem_script hmem] at hI
    exact ⟨I, hI, List.Subset.trans hlines' hlines, List.Subset.trans hfindings' hfindings⟩

end ProxyLint.Include
