import ProxyLint.Proofs.Include.Forest
import ProxyLint.Proofs.Path.Normal

set_option relaxedAutoImplicit false
set_option autoImplicit false

/-!
# The shape of a script

What an action does, less the place where it is written, is its shape. The shape
of a script depends on the contents of the lines and on the directory that
includes start at; line numbers, names of files and the file that includes leave
no trace in it. Scripts of one shape grow into forests with the same contents.

## Main definitions

* `ProxyLint.Include.Action.shape` — what an action does, wherever it is written.
* `ProxyLint.Include.Resolver.SameBase` — includes of two files start at one place.
* `ProxyLint.Include.Forest.Alike` — forests with the same contents and height.

## Main results

* `ProxyLint.Include.Resolver.shape_flatMap_lineScript` — lines with the same
  contents have actions of the same shape.
* `ProxyLint.Include.Grows.of_shape` — scripts of one shape grow alike.
-/

namespace ProxyLint.Include

/-! ### Shapes -/

/-- What an action does, wherever it is written. -/
inductive Shape where
  /-- Adds a line with this content. -/
  | emit (content : List Char)
  /-- Records this fault. -/
  | report (fault : Fault) (context : String)
  /-- Opens this file. -/
  | enter (path : String)
  /-- Gives up. -/
  | stop

/-- The shape of an action. -/
def Action.shape : Action → Shape
  | .emit content _ => .emit content
  | .report f => .report f.fault f.context
  | .enter path _ => .enter path
  | .stop _ => .stop

namespace Resolver

variable {r : Resolver} {t : FileTree} {file file' : String}

/-- Every target is looked up at the same path from two files. -/
def SameBase (r : Resolver) (file file' : String) : Prop :=
  ∀ target, Path.normalize (Path.join (r.baseOf file) target) =
    Path.normalize (Path.join (r.baseOf file') target)

/-- A file has the same folder as itself. -/
lemma SameBase.refl (file : String) : r.SameBase file file := fun _ => rfl

/-- Includes of two files start at one place if their directories have the same
normal form. -/
lemma SameBase.of_normalize_eq
    (h : Path.normalize (r.baseOf file) = Path.normalize (r.baseOf file')) :
    r.SameBase file file' :=
  Path.normalize_join_congr (Path.normalize_eq_iff.1 h)

/-- Includes of the web server start at one place, whatever file they are in. -/
lemma SameBase.of_httpd (h : r.dialect = .httpd) (file file' : String) :
    r.SameBase file file' := by
  intro target
  simp only [baseOf, h]

section Scripts

variable {source source' : Source} {includedFrom? includedFrom?' : Option String}

/-- What happens if nothing is found has the same shape in both files. -/
lemma shape_noMatchScript (target : String) (isOptional : Bool) :
    (r.noMatchScript ⟨target, isOptional, file, source⟩).map Action.shape =
      (r.noMatchScript ⟨target, isOptional, file', source'⟩).map Action.shape := by
  unfold noMatchScript
  cases r.dialect <;> dsimp only <;> split <;> rfl

/-- What happens to a file that is found has the same shape in both files. -/
lemma shape_matchScript (target : String) (isOptional : Bool) (path : String) :
    (r.matchScript t ⟨target, isOptional, file, source⟩ path).map Action.shape =
      (r.matchScript t ⟨target, isOptional, file', source'⟩ path).map Action.shape := by
  unfold matchScript
  split
  · rfl
  · cases r.dialect
    · rfl
    · simp only [List.map_map]
      rfl

/-- A request has the same shape in two files with the same folder. -/
lemma shape_requestScript (h : r.SameBase file file') (target : String) (isOptional : Bool) :
    (r.requestScript t ⟨target, isOptional, file, source⟩).map Action.shape =
      (r.requestScript t ⟨target, isOptional, file', source'⟩).map Action.shape := by
  have hmatches : r.matches? t ⟨target, isOptional, file, source⟩ =
      r.matches? t ⟨target, isOptional, file', source'⟩ := by
    have hlookup : r.lookupPath ⟨target, isOptional, file, source⟩ =
        r.lookupPath ⟨target, isOptional, file', source'⟩ := h target
    unfold matches?
    rw [hlookup]
  unfold requestScript
  rw [hmatches]
  rcases r.matches? t ⟨target, isOptional, file', source'⟩ with _ | _ | ⟨path, paths⟩
  · rfl
  · exact shape_noMatchScript target isOptional
  · dsimp only
    rw [List.map_flatMap, List.map_flatMap]
    congr 1
    funext p
    exact shape_matchScript target isOptional p

/-- A target has the same shape in two files with the same folder. -/
lemma shape_targetScript (h : r.SameBase file file') (target : List Char) (isOptional : Bool) :
    (r.targetScript t target isOptional file source).map Action.shape =
      (r.targetScript t target isOptional file' source').map Action.shape := by
  unfold targetScript
  dsimp only
  split
  · rfl
  · exact shape_requestScript h _ isOptional

/-- The actions of a line have the same shape wherever the line is written. -/
lemma shape_lineScript (h : r.SameBase file file') {line line' : Nat × List Char}
    (hline : Text.strip line.2 = Text.strip line'.2) :
    (r.lineScript t file includedFrom? line).map Action.shape =
      (r.lineScript t file' includedFrom?' line').map Action.shape := by
  unfold lineScript
  rw [hline]
  dsimp only
  split
  · rfl
  · cases r.dialect <;> dsimp only
    · rw [List.map_flatMap, List.map_flatMap]
      congr 1
      funext p
      cases p with
      | text content => rfl
      | target path => exact shape_targetScript h path false
    · rcases directive? (Text.strip line'.2) with _ | d <;> dsimp only
      · rfl
      · exact shape_targetScript h d.target d.isOptional

/-- **Lines with the same contents have actions of the same shape.** -/
theorem shape_flatMap_lineScript (h : r.SameBase file file') {ls ls' : List (Nat × List Char)}
    (hls : ls.map (fun l => Text.strip l.2) = ls'.map fun l => Text.strip l.2) :
    (ls.flatMap (r.lineScript t file includedFrom?)).map Action.shape =
      (ls'.flatMap (r.lineScript t file' includedFrom?')).map Action.shape := by
  induction ls generalizing ls' with
  | nil =>
    rw [List.map_nil] at hls
    rw [List.map_eq_nil_iff.1 hls.symm]
    rfl
  | cons l ls ih =>
    rw [List.map_cons] at hls
    obtain ⟨l', ls'', rfl, hl, hrest⟩ := List.map_eq_cons_iff.1 hls.symm
    rw [List.flatMap_cons, List.flatMap_cons, List.map_append, List.map_append,
      shape_lineScript h hl.symm, ih hrest.symm]

/-- The script of a file has the same shape whoever includes it. -/
lemma shape_script (h : r.SameBase file file') (text : String) :
    (r.script t text file includedFrom?).map Action.shape =
      (r.script t text file' includedFrom?').map Action.shape :=
  shape_flatMap_lineScript h rfl

end Scripts

end Resolver

/-! ### Growing alike -/

/-- Forests with the same contents and the same height. -/
structure Forest.Alike (F G : Forest) : Prop where
  /-- The lines have the same contents. -/
  lines : F.lines.map Line.content = G.lines.map Line.content
  /-- The faults are the same. -/
  findings : F.findings.map (fun f => (f.fault, f.context)) =
    G.findings.map fun f => (f.fault, f.context)
  /-- The files lie as deep inside each other. -/
  height : F.height = G.height

namespace Forest.Alike

variable {F G : Forest}

/-- Forests that are alike have as many lines. -/
lemma length_lines (h : F.Alike G) : F.lines.length = G.lines.length := by
  simpa using congrArg List.length h.lines

end Forest.Alike

namespace Grows

variable {r : Resolver} {t : FileTree} {as bs : List Action} {F : Forest}

/-- **Scripts of one shape grow alike.**

**Proof sketch.** Induction on the growth. An included file is the same file in
both scripts; its own script is told another name for the including file, which
does not show in its shape (`shape_script`). -/
theorem of_shape (h : Grows r t as F) (hs : as.map Action.shape = bs.map Action.shape) :
    ∃ G, Grows r t bs G ∧ F.Alike G := by
  induction h generalizing bs with
  | nil =>
    rw [List.map_nil] at hs
    rw [List.map_eq_nil_iff.1 hs.symm]
    exact ⟨.nil, .nil, ⟨rfl, rfl, rfl⟩⟩
  | emit _ ih =>
    obtain ⟨b, bs', rfl, hb, hrest⟩ := List.map_eq_cons_iff.1 hs.symm
    obtain ⟨G, hG, hl, hf, hh⟩ := ih hrest.symm
    cases b <;> cases hb
    exact ⟨_, .emit hG, by simp [Forest.lines, hl], hf, hh⟩
  | @report f as F _ ih =>
    obtain ⟨b, bs', rfl, hb, hrest⟩ := List.map_eq_cons_iff.1 hs.symm
    obtain ⟨G, hG, hl, hf, hh⟩ := ih hrest.symm
    cases b with
    | report g =>
      obtain ⟨hfault, hcontext⟩ : g.fault = f.fault ∧ g.context = f.context := by
        simpa [Action.shape] using hb
      exact ⟨_, .report hG, hl, by simp [Forest.findings, hf, hfault, hcontext], hh⟩
    | emit => cases hb
    | enter => cases hb
    | stop => cases hb
  | enter htext _ _ ihin ih =>
    obtain ⟨b, bs', rfl, hb, hrest⟩ := List.map_eq_cons_iff.1 hs.symm
    obtain ⟨G, hG, hl, hf, hh⟩ := ih hrest.symm
    cases b with
    | enter path' q' =>
      cases hb
      obtain ⟨I, hI, hl', hf', hh'⟩ := ihin (Resolver.shape_script (.refl _) _)
      refine ⟨_, .enter htext hI hG, ?_, ?_, ?_⟩
      · simp only [Forest.lines, List.map_append, hl, hl']
      · simp only [Forest.findings, List.map_append, hf, hf']
      · simp only [Forest.height, hh, hh']
    | emit => cases hb
    | report => cases hb
    | stop => cases hb

end Grows

end ProxyLint.Include
