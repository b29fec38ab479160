import Mathlib.Data.List.Basic

set_option relaxedAutoImplicit false
set_option autoImplicit false

/-!
# Changing one entry of an array

`Array.modify` changes the entry at one index and leaves an array without that index as it is.
The lemmas of this file say what it does to an array that has been made of two parts, so that a
table built by pushing entries can be changed where the entry stands.

## Main results

* `Array.modify_append_left` — an entry of the first of two arrays.
* `Array.modify_push_size` — the entry that has just been pushed.
* `Array.modify_modify` — one entry changed twice.
-/

namespace Array

variable {α : Type} {f g k : α → α}

/-- Changing an entry of `as` in `as ++ bs` leaves `bs` alone. -/
lemma modify_append_left {as : Array α} {i : Nat} (hi : i < as.size) (f : α → α)
    (bs : Array α) : (as ++ bs).modify i f = as.modify i f ++ bs := by
  refine Array.ext_getElem? fun j => ?_
  simp only [Array.getElem?_modify, Array.getElem?_append, Array.size_modify]
  by_cases hj : i = j
  · simp [← hj, hi]
  · simp [hj]

/-- Changing the entry that has just been pushed is pushing the changed entry. -/
lemma modify_push_size {as : Array α} {n : Nat} (hn : as.size = n) (a : α)
    (f : α → α) : (as.push a).modify n f = as.push (f a) := by
  refine Array.ext_getElem? fun j => ?_
  simp only [Array.getElem?_modify, Array.getElem?_push]
  by_cases hj : n = j
  · simp [← hj, hn]
  · simp [hj, hn, Ne.symm hj]

/-- Two changes of one entry are the change `k` that does both. -/
lemma modify_modify (h : ∀ a, g (f a) = k a) (as : Array α) (i : Nat) :
    (as.modify i f).modify i g = as.modify i k := by
  refine Array.ext_getElem? fun j => ?_
  simp only [Array.getElem?_modify]
  split
  · rw [Option.map_map, (funext h : g ∘ f = k)]
  · rfl

end Array
