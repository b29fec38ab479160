import ProxyLint.FileTree
import ProxyLint.Proofs.Path.Normal

set_option relaxedAutoImplicit false
set_option autoImplicit false

/-!
# Walks through a file tree

A walk that gets anywhere gets to the place that its path denotes on paper, where
a name is one step down and `..` one step up. That place depends on the normal
form of the path alone, so two paths with one normal form lead to one file.

## Main definitions

* `ProxyLint.FileTree.placeOf` — the place that a stack of parts denotes.

## Main results

* `ProxyLint.FileTree.locate?_eq_placeOf` — a walk gets to the place that the path
  denotes.
* `ProxyLint.FileTree.read?_eq_of_normalize_eq` — two paths to files with the same
  normal form lead to the same text.
-/

namespace ProxyLint.FileTree

open ProxyLint.Path

variable (t : FileTree)

/-- One step along a part, on paper. -/
def move (place : List String) : Part → List String
  | .root => []
  | .here => place
  | .up => place.dropLast
  | .name n => place ++ [n]

/-- The place that a stack of parts denotes. -/
def placeOf (st : List Part) : List String :=
  st.reverse.foldl move t.here

/-- The innermost part of a stack is the last step. -/
lemma placeOf_cons (p : Part) (st : List Part) : t.placeOf (p :: st) = move (t.placeOf st) p := by
  rw [placeOf, List.reverse_cons, List.foldl_append]
  rfl

/-- Putting a part on a stack is one step, also where it takes a name off. -/
lemma placeOf_collapse (st : List Part) (p : Part) :
    t.placeOf (collapse st p) = move (t.placeOf st) p := by
  cases p with
  | root => exact t.placeOf_cons .root st
  | here => rfl
  | name n => exact t.placeOf_cons (.name n) st
  | up =>
    cases st with
    | nil => exact t.placeOf_cons .up []
    | cons q st =>
      cases q with
      | name n => simp [collapse, placeOf_cons, move]
      | root => exact t.placeOf_cons .up _
      | here => exact t.placeOf_cons .up _
      | up => exact t.placeOf_cons .up _

/-- Steps are taken as parts are put on a stack. -/
lemma foldl_move_eq_placeOf (ps st : List Part) :
    ps.foldl move (t.placeOf st) = t.placeOf (ps.foldl collapse st) := by
  induction ps generalizing st with
  | nil => rfl
  | cons p ps ih => rw [List.foldl_cons, List.foldl_cons, ← placeOf_collapse, ih]

/-- A step that succeeds is the step on paper. -/
lemma step_eq_some {place place' : List String} {piece : String}
    (h : t.step place piece = some place') :
    place' = (Part.ofInner? piece).toList.foldl move place := by
  unfold step at h
  split at h
  · unfold Part.ofInner?
    split at h
    · next hidle =>
      cases h
      rw [if_pos hidle]
      rfl
    · next hidle =>
      rw [if_neg hidle]
      split at h
      · next hup =>
        cases h
        rw [if_pos hup]
        rfl
      · next hup =>
        rw [if_neg hup]
        split at h
        · cases h; rfl
        · cases h
  · cases h

/-- So is a walk along several fields. -/
lemma foldlM_step_eq_some {fs : List String} {place place' : List String}
    (h : fs.foldlM t.step place = some place') :
    place' = (fs.filterMap Part.ofInner?).foldl move place := by
  induction fs generalizing place with
  | nil => cases h; rfl
  | cons f fs ih =>
    rw [List.foldlM_cons] at h
    obtain ⟨next, hnext, hrest⟩ := Option.bind_eq_some_iff.1 h
    rw [ih hrest, t.step_eq_some hnext, List.filterMap_cons]
    cases Part.ofInner? f <;> rfl

/-- **A walk gets to the place that the path denotes.** -/
theorem locate?_eq_placeOf {path : String} {place : List String}
    (h : t.locate? path = some place) : place = t.placeOf (stack path) := by
  have hpaper : t.placeOf (stack path) = (parts path).foldl move t.here :=
    (t.foldl_move_eq_placeOf (parts path) []).symm
  rw [hpaper]
  unfold locate? at h
  split at h
  · cases h
  · next hne =>
    rw [t.foldlM_step_eq_some h]
    obtain ⟨f, fs, hf⟩ := List.exists_cons_of_ne_nil (Text.fields_ne_nil '/' path)
    rw [parts_of_fields hf, hf, List.foldl_append, List.filterMap_cons]
    by_cases hempty : f = ""
    · -- an empty first field, with others after it, is the root
      subst hempty
      have hfs : fs ≠ [] := by
        rintro rfl
        have hpath := Text.joinWith_fields path
        rw [hf] at hpath
        exact hne (by rw [← hpath]; rfl)
      rw [isAbsolute_of_fields hf hfs, List.isEmpty_eq_false_iff.2 hfs]
      rfl
    · rw [isAbsolute_eq_false_of_fields hf hempty]
      by_cases hdot : f = "."
      · subst hdot
        rfl
      · rw [frontPart?_eq_ofInner? hempty hdot]
        cases Part.ofInner? f <;> rfl

/-- A file is found by a walk. -/
lemma exists_locate?_of_isFile {path : String} (h : t.isFile path = true) :
    ∃ place, t.locate? path = some place := by
  unfold isFile find? at h
  cases hloc : t.locate? path with
  | none => rw [hloc] at h; cases h
  | some place => exact ⟨place, rfl⟩

/-- **Two paths to files with the same normal form lead to the same text.** -/
theorem read?_eq_of_normalize_eq {p q : String} (h : normalize p = normalize q)
    (hp : t.isFile p = true) (hq : t.isFile q = true) : t.read? p = t.read? q := by
  obtain ⟨a, ha⟩ := t.exists_locate?_of_isFile hp
  obtain ⟨b, hb⟩ := t.exists_locate?_of_isFile hq
  have hab : a = b := by
    rw [t.locate?_eq_placeOf ha, t.locate?_eq_placeOf hb, normalize_eq_iff.1 h]
  rw [read?, read?, find?, find?, ha, hb, hab]

/-- What can be read is a file. -/
lemma isFile_of_read? {path text : String} (h : t.read? path = some text) :
    t.isFile path = true := by
  unfold read? at h
  unfold isFile
  split at h
  · next hfind => rw [hfind]; rfl
  · cases h

/-- What is a file exists. -/
lemma contains_of_isFile {path : String} (h : t.isFile path = true) : t.contains path = true := by
  unfold isFile at h
  unfold contains
  cases hfind : t.find? path with
  | none => rw [hfind] at h; cases h
  | some n => rfl

/-- What is a file is no directory. -/
lemma isDir_eq_false_of_isFile {path : String} (h : t.isFile path = true) :
    t.isDir path = false := by
  unfold isFile at h
  unfold isDir
  cases hfind : t.find? path with
  | none => rfl
  | some n => simpa [hfind] using h

end ProxyLint.FileTree
