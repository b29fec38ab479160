import Mathlib.Data.String.Basic
import ProxyLint.Path

set_option relaxedAutoImplicit false
set_option autoImplicit false

/-!
# The order of paths

Paths are compared part by part, and parts by kind before they are compared by
text. This is a total preorder; paths that denote the same parts are tied in it,
however they are spelled.

## Main results

* `ProxyLint.Path.le_trans`, `ProxyLint.Path.le_total` — the order is a total
  preorder.
* `ProxyLint.Path.pairwise_sort` — sorted paths are in order.
-/

namespace ProxyLint.Path

/-- Parts of one kind and one text are the same part. -/
lemma Part.eq_of_rank_of_text {p q : Part} (hr : p.rank = q.rank) (ht : p.text = q.text) :
    p = q := by
  cases p <;> cases q <;> simp_all [Part.rank, Part.text]

/-- Parts are compared by their sort first and then by their texts. -/
lemma Part.lt_iff {p q : Part} :
    p.lt q = true ↔ p.rank < q.rank ∨ p.rank = q.rank ∧ p.text < q.text := by
  simp [Part.lt]

/-- The order of parts is transitive. -/
lemma Part.lt_trans {p q s : Part} (h : p.lt q = true) (h' : q.lt s = true) :
    p.lt s = true := by
  rw [Part.lt_iff] at h h' ⊢
  rcases h with h | ⟨hr, ht⟩ <;> rcases h' with h' | ⟨hr', ht'⟩
  · exact .inl (by omega)
  · exact .inl (by omega)
  · exact .inl (by omega)
  · exact .inr ⟨hr.trans hr', ht.trans ht'⟩

/-- Two parts are the same, or one comes before the other. -/
lemma Part.lt_or_eq_or_lt (p q : Part) : p.lt q = true ∨ p = q ∨ q.lt p = true := by
  simp only [Part.lt_iff]
  rcases Nat.lt_trichotomy p.rank q.rank with h | h | h
  · exact .inl (.inl h)
  · rcases lt_trichotomy p.text q.text with ht | ht | ht
    · exact .inl (.inr ⟨h, ht⟩)
    · exact .inr (.inl (Part.eq_of_rank_of_text h ht))
    · exact .inr (.inr (.inr ⟨h.symm, ht⟩))
  · exact .inr (.inr (.inl h))

/-- The order of lists of parts is transitive. -/
lemma partsLe_trans {ps qs ss : List Part} (h : partsLe ps qs = true)
    (h' : partsLe qs ss = true) : partsLe ps ss = true := by
  induction ps generalizing qs ss with
  | nil => rfl
  | cons p ps ih =>
    match qs, ss with
    | [], _ => cases h
    | _ :: _, [] => cases h'
    | q :: qs, s :: ss =>
      simp only [partsLe, Bool.or_eq_true, Bool.and_eq_true, beq_iff_eq] at h h' ⊢
      rcases h with h | ⟨rfl, h⟩ <;> rcases h' with h' | ⟨rfl, h'⟩
      · exact .inl (Part.lt_trans h h')
      · exact .inl h
      · exact .inl h'
      · exact .inr ⟨rfl, ih h h'⟩

/-- Any two lists of parts can be compared. -/
lemma partsLe_total (ps qs : List Part) : partsLe ps qs = true ∨ partsLe qs ps = true := by
  induction ps generalizing qs with
  | nil => exact .inl rfl
  | cons p ps ih =>
    cases qs with
    | nil => exact .inr rfl
    | cons q qs =>
      simp only [partsLe, Bool.or_eq_true, Bool.and_eq_true, beq_iff_eq]
      rcases Part.lt_or_eq_or_lt p q with h | rfl | h
      · exact .inl (.inl h)
      · rcases ih qs with h | h
        · exact .inl (.inr ⟨rfl, h⟩)
        · exact .inr (.inr ⟨rfl, h⟩)
      · exact .inr (.inl h)

/-- The order of paths is transitive. -/
theorem le_trans {a b c : String} (h : le a b = true) (h' : le b c = true) : le a c = true :=
  partsLe_trans h h'

/-- Any two paths can be compared. -/
theorem le_total (a b : String) : le a b = true ∨ le b a = true :=
  partsLe_total (parts a) (parts b)

/-- Sorting puts paths in order. -/
theorem pairwise_sort (paths : List String) :
    (sort paths).Pairwise fun a b => le a b = true := by
  have hle : ∀ a b : String, (le a b || le b a) = true := by
    intro a b
    rw [Bool.or_eq_true]
    exact le_total a b
  exact @List.pairwise_mergeSort String le (fun _ _ _ hab hbc => le_trans hab hbc) hle paths

/-- Sorting keeps every path. -/
lemma perm_sort (paths : List String) : (sort paths).Perm paths :=
  List.mergeSort_perm paths le

end ProxyLint.Path
