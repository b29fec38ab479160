import ProxyLint.Proofs.Path.Folder
import ProxyLint.Proofs.Path.Relative

set_option relaxedAutoImplicit false
set_option autoImplicit false

/-!
# Paths inside a directory

A path inside a directory is the name of the directory followed by fields. As long as the fields
do not climb out of the directory, its name has no part in what the path means: the order of two
such paths, their names as seen from the directory and what is looked up from there depend on
the fields only.

## Main definitions

* `ProxyLint.Path.within` — the path with given fields inside a directory.
* `ProxyLint.Path.trail` — where fields lead, innermost first.
* `ProxyLint.Path.Inside` — fields that do not climb out of the directory.
* `ProxyLint.Path.Descends` — paths that lead along names.

## Main results

* `ProxyLint.Path.le_within` — the order of paths inside a directory is that of their fields.
* `ProxyLint.Path.Descends.normalize_join_eq_within` — what is looked up from a directory, and
  does not leave it, is a path inside it.
-/

namespace ProxyLint.Path

instance : DecidablePred IsName := fun n =>
  decidable_of_iff (n ≠ "" ∧ n ≠ "." ∧ n ≠ ".." ∧ '/' ∉ n.toList)
    ⟨fun h => ⟨h.1, h.2.1, h.2.2.1, h.2.2.2⟩,
      fun h => ⟨h.ne_empty, h.ne_dot, h.ne_dots, h.slash_notMem⟩⟩

/-- The path with given fields inside a directory. -/
def within (root : String) (fs : List String) : String :=
  Text.joinWith "/" (root :: fs)

/-- Where fields lead, innermost first. -/
def trail (fs : List String) : List Part :=
  (fs.filterMap Part.ofInner?).foldl collapse []

/-- Fields that do not climb out of the directory that they start in. -/
structure Inside (fs : List String) : Prop where
  slash_notMem : ∀ f ∈ fs, '/' ∉ f.toList
  ne_empty : ∀ f ∈ fs, f ≠ ""
  up_notMem : .up ∉ trail fs

/-! ### Names -/

namespace IsName

variable {n : String}

/-- A name is a part. -/
lemma ofInner? (h : IsName n) : Part.ofInner? n = some (.name n) :=
  Part.IsInner.ofInner?_text (p := .name n) h

/-- A name is one piece, which denotes the name. -/
lemma pieces (h : IsName n) : Path.pieces n = [⟨n, some (.name n)⟩] := by
  have hinner : ∀ p ∈ [Part.name n], p.IsInner := by
    intro p hp
    rw [List.mem_singleton.1 hp]
    exact h
  have hpieces : Path.pieces (Text.joinWith "/" ([Part.name n].map Part.text)) =
      [Part.name n].map Piece.ofPart := pieces_spell_inner (List.cons_ne_nil _ _) hinner
  exact hpieces

/-- A name is the only part of the path that it is. -/
lemma parts (h : IsName n) : Path.parts n = [.name n] := by
  rw [Path.parts, h.pieces]
  rfl

/-- A name is a path in normal form. -/
lemma normalize (h : IsName n) : Path.normalize n = n := by
  rw [normalize_eq, stack, h.parts]
  rfl

end IsName

/-! ### Parts of paths inside a directory -/

section Below

variable {root : String} {fs gs : List String}

/-- The fields of a path inside a directory are the directory and those that were added. -/
lemma fields_within (hroot : IsName root) (h : ∀ f ∈ fs, '/' ∉ f.toList) :
    Text.fields '/' (within root fs) = root :: fs := by
  refine Text.fields_joinWith (by simp) fun s hs => ?_
  rcases List.mem_cons.1 hs with rfl | hs
  · exact hroot.slash_notMem
  · exact h s hs

/-- The pieces of a path inside a directory are the directory and the fields that were added. -/
lemma pieces_within (hroot : IsName root) (h : ∀ f ∈ fs, '/' ∉ f.toList) :
    pieces (within root fs) =
      ⟨root, some (.name root)⟩ :: fs.map fun f => ⟨f, Part.ofInner? f⟩ := by
  rw [pieces_of_fields (fields_within hroot h),
    frontPart?_eq_ofInner? hroot.ne_empty hroot.ne_dot, hroot.ofInner?]

/-- The parts of a path inside a directory are the directory and the fields that are not idle. -/
lemma parts_within (hroot : IsName root) (h : ∀ f ∈ fs, '/' ∉ f.toList) :
    parts (within root fs) = .name root :: fs.filterMap Part.ofInner? := by
  rw [parts, pieces_within hroot h, List.filterMap_cons, List.filterMap_map]
  rfl

/-- A path inside a directory is relative. -/
lemma isAbsolute_within (hroot : IsName root) (h : ∀ f ∈ fs, '/' ∉ f.toList) :
    isAbsolute (within root fs) = false :=
  isAbsolute_eq_false_of_fields (fields_within hroot h) hroot.ne_empty

/-- A path inside a directory is not empty. -/
lemma isEmpty_within (hroot : IsName root) (h : ∀ f ∈ fs, '/' ∉ f.toList) :
    (within root fs).isEmpty = false := by
  rw [String.isEmpty_eq_false_iff]
  intro hnil
  have hfields := fields_within hroot h
  rw [hnil] at hfields
  exact hroot.ne_empty (List.cons.inj hfields).1.symm

/-- **The order of paths inside a directory is that of their fields.** -/
theorem le_within (hroot : IsName root) (hfs : ∀ f ∈ fs, '/' ∉ f.toList)
    (hgs : ∀ g ∈ gs, '/' ∉ g.toList) :
    le (within root fs) (within root gs) =
      partsLe (fs.filterMap Part.ofInner?) (gs.filterMap Part.ofInner?) := by
  have hlt : (Part.name root).lt (.name root) = false := by
    simp [Part.lt]
  rw [le, parts_within hroot hfs, parts_within hroot hgs, partsLe, hlt, beq_self_eq_true,
    Bool.true_and, Bool.false_or]

/-- A path inside a directory is seen from there by its fields. -/
lemma relativeTo?_within (hroot : IsName root) (h : ∀ f ∈ fs, '/' ∉ f.toList) :
    relativeTo? root (within root fs) =
      some (spell (dropIdleEnd ((fs.map fun f => ⟨f, Part.ofInner? f⟩).dropWhile
        fun p => p.part?.isNone))) := by
  rw [relativeTo?, hroot.parts, pieces_within hroot h]
  simp [strip?]

end Below

/-! ### One more field -/

/-- A field more is a part more, unless it is idle. -/
lemma trail_concat (fs : List String) (f : String) :
    trail (fs ++ [f]) = (Part.ofInner? f).toList.foldl collapse (trail fs) := by
  rw [trail, List.filterMap_append, List.foldl_append, trail]
  cases hf : Part.ofInner? f <;> simp [hf]

/-- The fields inside a directory are joined to it one by one. -/
lemma within_cons (root f : String) (fs : List String) :
    within root (f :: fs) = root ++ "/" ++ within f fs :=
  Text.joinWith_cons "/" root (by simp)

/-- A path inside a directory, with one more field. -/
lemma within_concat (root : String) (fs : List String) (f : String) :
    within root (fs ++ [f]) = within root fs ++ "/" ++ f := by
  induction fs generalizing root with
  | nil => rfl
  | cons g fs ih => rw [List.cons_append, within_cons, within_cons, ih, String.append_assoc,
      String.append_assoc, String.append_assoc, String.append_assoc, String.append_assoc]

/-- What holds no slash is relative. -/
lemma isAbsolute_eq_false_of_slash_notMem {f : String} (h : '/' ∉ f.toList) :
    isAbsolute f = false := by
  rw [Bool.eq_false_iff]
  intro habs
  obtain ⟨rest, hrest⟩ := List.isPrefixOf_iff_prefix.1 habs
  apply h
  rw [← hrest]
  exact List.mem_append_left rest List.mem_cons_self

/-- The last character of a field is that of the path. -/
lemma getLast?_within_ne {root : String} {fs : List String} (hroot : IsName root) (h : Inside fs) :
    (within root fs).toList.getLast? ≠ some '/' := by
  have hfield : ∀ f : String, f ≠ "" → '/' ∉ f.toList → f.toList.getLast? ≠ some '/' :=
    fun f _ hslash hlast => hslash (List.mem_of_getLast? hlast)
  rcases List.eq_nil_or_concat fs with rfl | ⟨gs, g, rfl⟩
  · exact hfield root hroot.ne_empty hroot.slash_notMem
  · rw [List.concat_eq_append] at h ⊢
    have hne := h.ne_empty g (by simp)
    have hlast : (within root (gs ++ [g])).toList.getLast? = g.toList.getLast? := by
      rw [within_concat, String.toList_append,
        List.getLast?_append_of_ne_nil _ (by simpa using hne)]
    rw [hlast]
    exact hfield g hne (h.slash_notMem g (by simp))

/-- Joining a field to a path inside a directory. -/
lemma join_within {root f : String} {fs : List String} (hroot : IsName root) (h : Inside fs)
    (hf : '/' ∉ f.toList) : join (within root fs) f = within root (fs ++ [f]) := by
  rw [join, isAbsolute_eq_false_of_slash_notMem hf, isEmpty_within hroot h.slash_notMem,
    Bool.or_self, if_neg Bool.false_ne_true, if_neg, within_concat]
  rw [beq_iff_eq]
  exact getLast?_within_ne hroot h

namespace Inside

variable {fs : List String}

/-- A path of no fields stays inside. -/
lemma nil : Inside [] :=
  ⟨by simp, by simp, by simp [trail]⟩

/-- A field that leads to a known place inside the directory may be added. -/
lemma concat {f : String} (h : Inside fs) (hne : f ≠ "") (hslash : '/' ∉ f.toList)
    (hup : .up ∉ trail (fs ++ [f])) : Inside (fs ++ [f]) where
  slash_notMem g hg := by
    rcases List.mem_append.1 hg with hg | hg
    · exact h.slash_notMem g hg
    · rw [List.mem_singleton.1 hg]
      exact hslash
  ne_empty g hg := by
    rcases List.mem_append.1 hg with hg | hg
    · exact h.ne_empty g hg
    · rw [List.mem_singleton.1 hg]
      exact hne
  up_notMem := hup

/-- A name leads one step further in. -/
lemma trail_name {f : String} (hf : IsName f) : trail (fs ++ [f]) = .name f :: trail fs := by
  rw [trail_concat, hf.ofInner?]
  rfl

/-- A name may be added. -/
lemma name {f : String} (h : Inside fs) (hf : IsName f) : Inside (fs ++ [f]) := by
  refine h.concat hf.ne_empty hf.slash_notMem ?_
  rw [trail_name hf]
  simpa using h.up_notMem

/-- A `.` stays where it is. -/
lemma here (h : Inside fs) : Inside (fs ++ ["."]) ∧ trail (fs ++ ["."]) = trail fs := by
  have htrail : trail (fs ++ ["."]) = trail fs := by
    rw [trail_concat]
    rfl
  refine ⟨h.concat (by decide) (by decide) ?_, htrail⟩
  rw [htrail]
  exact h.up_notMem

/-- The way from the directory to where the fields lead is along names. -/
lemma exists_name (h : Inside fs) {p : Part} (hp : p ∈ trail fs) : ∃ n, p = .name n := by
  rcases mem_of_mem_foldl_collapse hp with hnil | hmem
  · cases hnil
  · obtain ⟨f, hf, hpart⟩ := List.mem_filterMap.1 hmem
    have hinner := isInner_of_ofInner? (h.slash_notMem f hf) hpart
    cases p with
    | root => cases hinner
    | here => cases hinner
    | up => exact absurd hp h.up_notMem
    | name n => exact ⟨n, rfl⟩

/-- A `..` leads one step out, as long as there is one to take. -/
lemma up (h : Inside fs) (hne : trail fs ≠ []) :
    Inside (fs ++ [".."]) ∧ trail (fs ++ [".."]) = (trail fs).tail := by
  have htrail : trail (fs ++ [".."]) = (trail fs).tail := by
    obtain ⟨p, st, hst⟩ := List.exists_cons_of_ne_nil hne
    obtain ⟨n, rfl⟩ := h.exists_name (p := p) (by simp [hst])
    rw [trail_concat, hst]
    rfl
  refine ⟨h.concat (by decide) (by decide) ?_, htrail⟩
  rw [htrail]
  exact fun hup => h.up_notMem (List.mem_of_mem_tail hup)

end Inside

/-! ### What is looked up from a directory -/

/-- Only names are taken off a stack. -/
lemma mem_foldl_collapse {ps st : List Part} {q : Part} (hq : ∀ n, q ≠ .name n) (h : q ∈ st) :
    q ∈ ps.foldl collapse st := by
  induction ps generalizing st with
  | nil => exact h
  | cons p ps ih =>
    apply ih
    unfold collapse
    split
    · exact h
    · split
      · exact (List.mem_cons.1 h).resolve_left (hq _)
      · exact List.mem_cons_of_mem _ h
    · exact List.mem_cons_of_mem _ h

/-- What lies under a stack that is not climbed out of is left as it is. -/
lemma foldl_collapse_append {ps st : List Part} (h : .up ∉ ps.foldl collapse st)
    (base : List Part) : ps.foldl collapse (st ++ base) = ps.foldl collapse st ++ base := by
  induction ps generalizing st with
  | nil => rfl
  | cons p ps ih =>
    have hstep : collapse (st ++ base) p = collapse st p ++ base := by
      cases p with
      | root | here | name => rfl
      | up =>
        cases st with
        | nil =>
          have hup : .up ∈ ps.foldl collapse [.up] :=
            mem_foldl_collapse (fun n hn => by cases hn) List.mem_cons_self
          exact absurd hup h
        | cons p' st => cases p' <;> rfl
    rw [List.foldl_cons, hstep]
    exact ih h

/-- The fields that spell a row of names. -/
lemma inside_of_settled {st : List Part} (hsettled : Settled st)
    (hnames : ∀ p ∈ st, ∃ n, p = .name n) : Inside (st.reverse.map Part.text) := by
  have hinner : ∀ p ∈ st.reverse, p.IsInner := by
    rcases hsettled.reverse_eq with hinner | ⟨ps, hps, -⟩
    · exact hinner
    · obtain ⟨n, hn⟩ := hnames .root (by rw [← List.mem_reverse, hps]; exact List.mem_cons_self)
      cases hn
  have htrail : trail (st.reverse.map Part.text) = st := by
    have hparts : (st.reverse.map Part.text).filterMap Part.ofInner? = st.reverse := by
      rw [List.filterMap_map]
      exact (List.filterMap_congr fun p hp => (hinner p hp).ofInner?_text).trans
        List.filterMap_some
    rw [trail, hparts, foldl_collapse_reverse hsettled]
  refine ⟨?_, ?_, ?_⟩
  · intro f hf
    obtain ⟨p, hp, rfl⟩ := List.mem_map.1 hf
    exact (hinner p hp).slash_notMem_text
  · intro f hf
    obtain ⟨p, hp, rfl⟩ := List.mem_map.1 hf
    obtain ⟨n, rfl⟩ := hnames p (List.mem_reverse.1 hp)
    exact IsName.ne_empty (hinner (.name n) hp)
  · rw [htrail]
    intro hup
    obtain ⟨n, hn⟩ := hnames _ hup
    cases hn

/-- A path that leads along names, out of a directory, is a path inside the directory. -/
lemma ofParts_eq_within (root : String) (st : List Part) :
    ofParts (st ++ [Part.name root]).reverse = within root (st.reverse.map Part.text) := by
  rw [List.reverse_append, List.reverse_singleton, List.singleton_append, ofParts, if_neg (by simp)]
  rfl

/-- An absolute path is read onto the root. -/
lemma root_mem_stack {path : String} (h : isAbsolute path = true) : .root ∈ stack path := by
  obtain ⟨rest, hrest⟩ := List.isPrefixOf_iff_prefix.1 h
  have hpath : path = "" ++ "/" ++ String.ofList rest := by
    rw [← String.toList_inj, ← hrest]
    simp
  have hfields : Text.fields '/' path = "" :: Text.fields '/' (String.ofList rest) := by
    rw [hpath, Text.fields_append_slash]
    rfl
  obtain ⟨f, fs, hf⟩ := List.exists_cons_of_ne_nil (Text.fields_ne_nil '/' (String.ofList rest))
  rw [stack, parts_of_fields hfields, hf, List.foldl_append]
  exact mem_foldl_collapse (fun n hn => by cases hn) List.mem_cons_self

/-- A relative path is not. -/
lemma root_notMem_stack {path : String} (h : isAbsolute path = false) : .root ∉ stack path := by
  intro hroot
  rw [stack, foldl_collapse_parts h] at hroot
  rcases mem_of_mem_foldl_collapse hroot with hnil | hmem
  · cases hnil
  · obtain ⟨f, hf, hpart⟩ := List.mem_filterMap.1 hmem
    exact isInner_of_ofInner? (Text.slash_notMem_of_mem_fields hf) hpart

/-- A path that leads along names: it is not absolute, and does not climb out of where it
starts. -/
structure Descends (path : String) : Prop where
  root_notMem : .root ∉ stack path
  up_notMem : .up ∉ stack path

instance : DecidablePred Descends := fun path =>
  decidable_of_iff (.root ∉ stack path ∧ .up ∉ stack path)
    ⟨fun h => ⟨h.1, h.2⟩, fun h => ⟨h.root_notMem, h.up_notMem⟩⟩

namespace Descends

variable {root path base target : String}

/-- A path that descends is relative. -/
lemma isAbsolute_eq (h : Descends path) : isAbsolute path = false := by
  rw [Bool.eq_false_iff]
  exact fun habs => h.root_notMem (root_mem_stack habs)

/-- The fields that a path comes down to. -/
lemma inside (h : Descends path) : Inside ((stack path).reverse.map Part.text) := by
  refine inside_of_settled (settled_stack path) fun p hp => ?_
  cases p with
  | root => exact absurd hp h.root_notMem
  | up => exact absurd hp h.up_notMem
  | name n => exact ⟨n, rfl⟩
  | here =>
    rcases (settled_stack path).reverse_eq with hinner | ⟨ps, hps, hinner⟩
    · exact absurd (hinner .here (List.mem_reverse.2 hp)) id
    · rw [← List.mem_reverse, hps] at hp
      exact absurd (hinner .here ((List.mem_cons.1 hp).resolve_left nofun)) id

/-- The base of a path that leads along names leads along names. -/
lemma of_join (h : Descends (join base target)) :
    Descends base ∧ isAbsolute target = false := by
  have htarget : isAbsolute target = false := by
    rw [Bool.eq_false_iff]
    intro habs
    have habs' := h.isAbsolute_eq
    rw [join_of_isAbsolute base habs, habs] at habs'
    cases habs'
  have hmem : ∀ q : Part, (∀ n, q ≠ .name n) → q ∈ stack base → q ∈ stack (join base target) := by
    intro q hq hmem
    rw [stack_join base htarget]
    exact mem_foldl_collapse hq hmem
  refine ⟨⟨fun hroot => ?_, fun hup => ?_⟩, htarget⟩
  · exact h.root_notMem (hmem .root nofun hroot)
  · exact h.up_notMem (hmem .up nofun hup)

/-- Joined to a directory the path leads inside it. -/
lemma stack_join_name (h : Descends path) (hroot : IsName root) :
    stack (join root path) = stack path ++ [.name root] := by
  have hstack : stack root = [.name root] := by
    rw [stack, hroot.parts]
    rfl
  have hconcat : (parts path).foldl collapse ([] ++ [.name root]) = stack path ++ [.name root] :=
    foldl_collapse_append h.up_notMem [.name root]
  rw [stack_join root h.isAbsolute_eq, hstack]
  exact hconcat

/-- So does the path in normal form. -/
lemma normalize_join_name (h : Descends path) (hroot : IsName root) :
    normalize (join root path) = within root ((stack path).reverse.map Part.text) := by
  rw [normalize_eq, h.stack_join_name hroot, ofParts_eq_within]

/-- **What is looked up from a directory, and does not leave it, is a path inside it.** The base
is given both as it is written and as it is seen from the directory. -/
theorem normalize_join_eq_within {seen : String} (h : Descends (join seen target))
    (hbase : stack base = stack seen ++ [.name root]) :
    normalize (join base target) =
      within root ((stack (join seen target)).reverse.map Part.text) := by
  have htarget := h.of_join.2
  have hup := h.up_notMem
  rw [stack_join seen htarget] at hup
  rw [normalize_eq, stack_join base htarget, hbase, stack_join seen htarget,
    foldl_collapse_append hup, ofParts_eq_within]

/-- A path that leads along names, as it is written, inside a directory. -/
lemma join_eq_within (h : Descends path) (hroot : IsName root) :
    join root path = within root (Text.fields '/' path) ∧ .up ∉ trail (Text.fields '/' path) := by
  have hempty : root.isEmpty = false := String.isEmpty_eq_false_iff.2 hroot.ne_empty
  have hlast : (within root []).toList.getLast? ≠ some '/' := getLast?_within_ne hroot .nil
  refine ⟨?_, ?_⟩
  · rw [join, h.isAbsolute_eq, hempty, Bool.or_self, if_neg Bool.false_ne_true, if_neg, within,
      Text.joinWith_cons "/" root (Text.fields_ne_nil '/' path), Text.joinWith_fields]
    rw [beq_iff_eq]
    exact hlast
  · rw [trail, ← foldl_collapse_parts h.isAbsolute_eq]
    exact h.up_notMem

end Descends

end ProxyLint.Path
