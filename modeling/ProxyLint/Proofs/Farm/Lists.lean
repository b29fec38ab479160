import ProxyLint.Proofs.Any.Spelling
import ProxyLint.Proofs.Places.Farm

set_option relaxedAutoImplicit false
set_option autoImplicit false

/-!
# Lists of farms

A configuration may hold several lists of farms, for instance one from each file that it
includes. Each list that is read takes the place of the one before it, so that the farms of the
last list stay and those of the others are lost without notice. No farm is lost exactly if the
lists before the last one are empty.

## Main definitions

* `ProxyLint.Any.farmLists` — the lists of farms of a configuration.
* `ProxyLint.Any.farmEntries` — all farms that are written in them.

## Main results

* `ProxyLint.Any.farms_eq_farmEntries_iff` — which farms are read, and when these are all.
* `ProxyLint.Any.farms_of_earlier_list` — a farm that is lost.
-/

namespace ProxyLint.Any

/-- The lists of farms of a configuration, in order. -/
def farmLists (items : List Item) : List (List Item) :=
  (items.filterMap Item.labelled?).filterMap fun p =>
    if p.1.value == "farms" then p.2.items? else none

/-- The blocks that are written directly in a list of farms, in order. -/
def farmEntries (items : List Item) : List Entry :=
  (farmLists items).flatMap fun list => list.filterMap Item.entry?

/-- The farms of the last list are all farms if and only if there are none in the other lists. -/
lemma map_getLast?_eq_map_flatMap_iff {α β γ : Type} (lists : List α) (read : α → List β)
    (f : β → γ) {none : α} (hnone : read none = []) :
    (read (lists.getLast?.getD none)).map f = (lists.flatMap read).map f ↔
      ∀ list ∈ lists.dropLast, read list = [] := by
  rcases lists.eq_nil_or_concat with rfl | ⟨front, last, rfl⟩
  · simp [hnone]
  · rw [List.concat_eq_append, List.getLast?_append_cons, List.dropLast_concat,
      List.flatMap_append, List.map_append]
    simp

/-- **The farms that are read are those of the last list**, each block directly in it being read
as one farm, in order. So all farms are read, those of every list in document order, if and only
if there are none in any list but the last one. -/
theorem farms_eq_farmEntries_iff (items : List Item) :
    (decode items).value.farms =
        (((farmLists items).getLast?.getD []).filterMap Item.entry?).map
          (fun e => (farm e).value) ∧
      ((decode items).value.farms = (farmEntries items).map (fun e => (farm e).value) ↔
        ∀ list ∈ (farmLists items).dropLast, list.filterMap Item.entry? = []) := by
  have hfarms : (decode items).value.farms =
      (((farmLists items).getLast?.getD []).filterMap Item.entry?).map
        (fun e => (farm e).value) := farms_decode items
  refine ⟨hfarms, ?_⟩
  rw [hfarms]
  exact map_getLast?_eq_map_flatMap_iff (farmLists items) (List.filterMap Item.entry?) _ rfl

/-- Two lists with a farm each. -/
def twoLists : List Item :=
  [.block (some ⟨"farms", siteLine 1⟩) (siteLine 1)
      [.block (some ⟨"publish", siteLine 2⟩) (siteLine 2) []],
    .block (some ⟨"farms", siteLine 4⟩) (siteLine 4)
      [.block (some ⟨"author", siteLine 5⟩) (siteLine 5) []]]

/-- The farm of the first list is lost, and nothing is noted. -/
theorem farms_of_earlier_list :
    (farmEntries twoLists).map Entry.label = [⟨"publish", siteLine 2⟩, ⟨"author", siteLine 5⟩] ∧
      (decode twoLists).value.farms.map Farm.label = [⟨"author", siteLine 5⟩] ∧
      (decode twoLists).findings = [] ∧
      (decode twoLists).value.farms ≠ (farmEntries twoLists).map (fun e => (farm e).value) := by
  refine ⟨rfl, rfl, rfl, fun h => ?_⟩
  exact absurd (congrArg List.length h) (by decide)

end ProxyLint.Any
