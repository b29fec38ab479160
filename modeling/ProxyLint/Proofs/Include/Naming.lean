import ProxyLint.Proofs.Include.Lookup
import ProxyLint.Proofs.Path.Fields
import ProxyLint.Proofs.Path.Inside

set_option relaxedAutoImplicit false
set_option autoImplicit false

/-!
# Names of files in the repository

A file is opened under a path in normal form, and it is named as it is seen from the repository. A
relative path that does not climb out of the repository leads to a file whose name is the path in
normal form, however the repository and the path are spelled; and joined to the repository the name
leads back. So normalisation and naming undo each other inside the repository. This holds of all
paths of the system, but for the last step: names are shown as texts, so that a path which is not
the code of a text does not get its name back.

## Main definitions

* `ProxyLint.RawPath.IsText` — the bytes are the code of a text.

## Main results

* `ProxyLint.Path.stack_join_of_up_notMem` — what a path that does not climb leads to.
* `ProxyLint.Path.relativeTo?_normalize_join` — such a path as seen from the folder that it is
  joined to.
* `ProxyLint.RawPath.nameFrom_normalize_join` — normal forms, and names of files in the
  repository, whatever their bytes.
* `ProxyLint.RawPath.nameFrom_of_broken_code` — a name that is no text is lost.
* `ProxyLint.Include.Resolver.nameOf_normalize_join` — names of files that are texts.
-/

namespace ProxyLint

namespace Path

variable {root path : String}

/-! ### Normal forms -/

/-- Only the empty path denotes nothing. -/
lemma parts_eq_nil_iff : parts path = [] ↔ path = "" := by
  refine ⟨fun h => ?_, fun h => h ▸ parts_empty⟩
  obtain ⟨first, rest, hfields⟩ := List.exists_cons_of_ne_nil (Text.fields_ne_nil '/' path)
  rw [parts_of_fields hfields, List.append_eq_nil_iff, Option.toList_eq_nil_iff] at h
  have hpath := Text.joinWith_fields path
  rw [hfields] at hpath
  by_cases hempty : first = ""
  · subst hempty
    cases rest with
    | nil => exact hpath.symm
    | cons f fs => cases h.1
  · exfalso
    by_cases hdot : first = "."
    · subst hdot
      cases h.1
    · have hinner := h.1
      rw [frontPart?_eq_ofInner? hempty hdot, Part.ofInner?,
        if_neg (by simp [hempty, hdot])] at hinner
      split at hinner <;> cases hinner

/-- Names are written with slashes between them. -/
lemma ofParts_names (names : List String) :
    ofParts (names.map .name) = Text.joinWith "/" names := by
  have htexts : (names.map Part.name).map Part.text = names := by
    rw [List.map_map]
    exact List.map_id names
  rw [ofParts, if_neg, htexts]
  rw [beq_iff_eq]
  intro hroot
  cases names with
  | nil => cases hroot
  | cons n names => cases hroot

/-! ### Paths that do not climb -/

/-- The parts of a relative path in normal form that does not start with a step up are names. -/
lemma exists_names (hrel : isAbsolute path = false)
    (hup : (parts (normalize path)).head? ≠ some .up) :
    ∃ names : List String, (stack path).reverse = names.map .name := by
  rw [parts_normalize] at hup
  obtain ⟨front, k, names, hfront, -, hst⟩ := (settled_stack path).reverse_shape
  have hnil : front = [] := by
    rcases hfront with hnil | hroot
    · exact hnil
    · refine absurd ?_ (root_notMem_stack hrel)
      rw [← List.mem_reverse, hst, hroot]
      simp
  have hzero : k = 0 := by
    cases k with
    | zero => rfl
    | succ k =>
      rw [hst, hnil] at hup
      exact absurd rfl hup
  exact ⟨names, by rw [hst, hnil, hzero]; rfl⟩

/-- What a path that does not climb leads to lies where it is joined to. -/
lemma stack_join_of_up_notMem (hrel : isAbsolute path = false) (hup : .up ∉ stack path)
    (root : String) : stack (join root path) = stack path ++ stack root := by
  rw [stack_join root hrel]
  exact foldl_collapse_append hup (stack root)

/-- A folder is seen from itself as the empty path. -/
lemma relativeTo?_self (root : String) : relativeTo? root root = some "" := by
  obtain ⟨rel, hrel⟩ := exists_relativeTo?_of_isPrefix (List.prefix_refl (parts root))
  have hparts := (parts_of_relativeTo? hrel).1
  rw [List.self_eq_append_right, parts_eq_nil_iff] at hparts
  rw [hrel, hparts]

/-- **A path that does not climb is seen from the folder that it is joined to as its normal
form.** -/
theorem relativeTo?_normalize_join (hrel : isAbsolute path = false)
    (hup : (parts (normalize path)).head? ≠ some .up) (root : String) :
    relativeTo? (normalize root) (normalize (join root path)) = some (normalize path) := by
  obtain ⟨names, hnames⟩ := exists_names hrel hup
  have hnotMem : .up ∉ stack path := by
    rw [← List.mem_reverse, hnames]
    simp
  have hstack := stack_join_of_up_notMem hrel hnotMem root
  rw [normalize_eq path, hnames]
  by_cases hne : names = []
  · subst hne
    have hsame : normalize (join root path) = normalize root := by
      rw [normalize_eq_iff, hstack, List.reverse_eq_nil_iff.1 hnames, List.nil_append]
    rw [hsame, relativeTo?_self]
    rfl
  · have hlead : LeadTo (normalize root) names (normalize (join root path)) := by
      rw [LeadTo, parts_normalize, parts_normalize, hstack, List.reverse_append, hnames]
    rw [relativeTo?_of_leadTo hne hlead, ofParts_names]

end Path

namespace RawPath

/-- **A name that is no text is lost.** The bytes of the second of these files are not the code of
a text; it is named with a mark in the place of the last one, and the name leads elsewhere. -/
theorem nameFrom_of_broken_code :
    let root := Text.bytes "repo"
    let f : RawPath := [0x61, 0xFF]
    isAbsolute f = false ∧ (parts (normalize f)).head? ≠ some .up ∧
      '\\'.toUInt8 ∉ normalize f ∧ normalize f = f ∧
      nameFrom root (normalize (join root f)) = "a\uFFFD" ∧
      Text.bytes "a\uFFFD" ≠ f ∧
      normalize (join root (Text.bytes "a\uFFFD")) ≠ normalize (join root f) := by
  decide +kernel

end RawPath

namespace Include.Resolver

/-- The file that a relative path leads to from the repository is named by its normal form, also if
the path is a text from the start. -/
theorem nameOf_normalize_join (r : Resolver) {f : String} (hrel : Path.isAbsolute f = false)
    (hup : (Path.parts (Path.normalize f)).head? ≠ some .up)
    (hslash : '\\' ∉ (Path.normalize f).toList) :
    r.nameOf (Path.normalize (Path.join r.root f)) = Path.normalize f := by
  have hseen := Path.relativeTo?_normalize_join hrel hup r.root
  rw [nameOf_eq_getD, hseen, Option.getD_some]
  rw [hseen, Option.getD_some]
  exact hslash

end Include.Resolver

end ProxyLint
