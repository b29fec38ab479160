import Mathlib.Data.List.Induction
import ProxyLint.Proofs.Evaluation.Sites

set_option relaxedAutoImplicit false
set_option autoImplicit false

/-!
# Labels that are repeated

Farms are looked at in their order, and a farm is noted when its label occurs for the second time.
What has been noted at the end names each repeated label once, however often it occurs, and the
first farm that has been noted is the first one whose label was there before.

The proofs follow the pass over the farms: each fact about what has been noted so far is kept when
one more farm is looked at.

## Main definitions

* `ProxyLint.Repeats` — the repeated labels of a list in the order of their second occurrences.
* `ProxyLint.FirstRepeated` — the first farm whose label occurs before it.

## Main results

* `ProxyLint.repeatedFarms_concat` — what is noted at one more farm.
* `ProxyLint.repeated_labels_reported` — whether labels are unique, and what is reported if not.
-/

namespace ProxyLint

/-- The labels of farms in order. -/
def farmLabels (farms : List Farm) : List String :=
  farms.map fun f => f.label.value

/-- The repeated labels of a list: each once, in the order of the positions at which they occur for
the second time. -/
structure Repeats (labels repeated : List String) : Prop where
  nodup : repeated.Nodup
  mem_iff : ∀ l, l ∈ repeated ↔ 2 ≤ labels.count l
  exists_positions : ∃ positions : List Nat, positions.Pairwise (· < ·) ∧
    List.Forall₂ (fun i l => labels[i]? = some l ∧ (labels.take i).count l = 1) positions repeated

/-- The first farm whose label occurs before it. -/
def FirstRepeated (farms : List Farm) (f : Farm) : Prop :=
  ∃ before after, farms = before ++ f :: after ∧ (farmLabels before).Nodup ∧
    f.label.value ∈ farmLabels before

/-- One farm more is one label more. -/
@[simp] lemma farmLabels_concat (farms : List Farm) (f : Farm) :
    farmLabels (farms ++ [f]) = farmLabels farms ++ [f.label.value] := by
  simp [farmLabels]

/-- **What is noted at one more farm**: the farm, if its label occurs once before it. -/
lemma repeatedFarms_concat (seen : List String) (farms : List Farm) (f : Farm) :
    repeatedFarms seen (farms ++ [f]) = repeatedFarms seen farms ++
      if seen.count f.label.value + (farmLabels farms).count f.label.value = 1 then [f]
      else [] := by
  induction farms generalizing seen with
  | nil => simp [repeatedFarms, farmLabels]
  | cons g farms ih =>
    have hcount : (g.label.value :: seen).count f.label.value +
          (farmLabels farms).count f.label.value =
        seen.count f.label.value + (farmLabels (g :: farms)).count f.label.value := by
      simp only [farmLabels, List.map_cons, List.count_cons]
      omega
    rw [List.cons_append, repeatedFarms, repeatedFarms, ih, hcount]
    split <;> simp

/-- The labels that have been noted, with one more farm. -/
lemma farmLabels_repeatedFarms_concat (farms : List Farm) (f : Farm) :
    farmLabels (repeatedFarms [] (farms ++ [f])) = farmLabels (repeatedFarms [] farms) ++
      if (farmLabels farms).count f.label.value = 1 then [f.label.value] else [] := by
  rw [repeatedFarms_concat, List.count_nil, Nat.zero_add]
  split <;> simp

/-- A position of a second occurrence stays one when the list goes on. -/
lemma second_concat {labels : List String} {i : Nat} {l : String} (x : String)
    (h : labels[i]? = some l ∧ (labels.take i).count l = 1) :
    (labels ++ [x])[i]? = some l ∧ ((labels ++ [x]).take i).count l = 1 := by
  obtain ⟨hi, -⟩ := List.getElem?_eq_some_iff.1 h.1
  rw [List.getElem?_append_left hi, List.take_append_of_le_length (by omega)]
  exact h

/-- **The labels that are noted are the repeated ones.**

**Proof sketch.** Induction on the farms from the last one. A label that occurs once before the
last farm has not been noted, occurs twice now, and the position of the last farm comes after all
that have been noted; any other label is noted already or still occurs only once. -/
theorem repeats_repeatedFarms (farms : List Farm) :
    Repeats (farmLabels farms) (farmLabels (repeatedFarms [] farms)) := by
  induction farms using List.reverseRecOn with
  | nil => exact ⟨List.nodup_nil, fun l => by simp [farmLabels, repeatedFarms], [], .nil, .nil⟩
  | append_singleton farms f ih =>
    obtain ⟨positions, hincreasing, hpositions⟩ := ih.exists_positions
    have hkept := hpositions.imp fun i l => second_concat f.label.value
    have hcount : ∀ l, (farmLabels (farms ++ [f])).count l =
        (farmLabels farms).count l + if f.label.value = l then 1 else 0 := by
      intro l
      rw [farmLabels_concat, List.count_append, List.count_singleton]
      simp
    rw [farmLabels_repeatedFarms_concat]
    split
    · next hone =>
      have hnew : f.label.value ∉ farmLabels (repeatedFarms [] farms) := by
        rw [ih.mem_iff]
        omega
      refine ⟨?_, ?_, positions ++ [farms.length], ?_, ?_⟩
      · exact ih.nodup.append (List.nodup_singleton _) (List.disjoint_singleton.2 hnew)
      · intro l
        rw [List.mem_append, List.mem_singleton, ih.mem_iff, hcount]
        by_cases hl : f.label.value = l
        · subst hl
          simp [hone]
        · simp [hl, Ne.symm hl]
      · refine List.pairwise_append.2 ⟨hincreasing, List.pairwise_singleton _ _, ?_⟩
        intro i hi j hj
        obtain ⟨l, -, hl, -⟩ := exists_of_forall₂_of_mem hpositions hi
        obtain ⟨hlt, -⟩ := List.getElem?_eq_some_iff.1 hl
        rw [List.mem_singleton.1 hj]
        simpa [farmLabels] using hlt
      · simp only [farmLabels_concat]
        refine List.rel_append hkept (.cons ⟨?_, ?_⟩ .nil)
        · simp [farmLabels]
        · rw [List.take_append_of_le_length (by simp [farmLabels]),
            List.take_of_length_le (by simp [farmLabels]), hone]
    · next hother =>
      rw [List.append_nil]
      refine ⟨ih.nodup, ?_, positions, hincreasing, ?_⟩
      · intro l
        rw [ih.mem_iff, hcount]
        split
        · next hl =>
          subst hl
          omega
        · rfl
      · simp only [farmLabels_concat]
        exact hkept

/-- Nothing is noted exactly if no label is repeated. -/
lemma repeatedFarms_eq_nil_iff {farms : List Farm} :
    repeatedFarms [] farms = [] ↔ (farmLabels farms).Nodup := by
  have hmem := (repeats_repeatedFarms farms).mem_iff
  rw [List.nodup_iff_count_le_one]
  constructor
  · intro hnil l
    have hl := hmem l
    simp only [hnil, farmLabels, List.map_nil, List.not_mem_nil, false_iff] at hl
    unfold farmLabels
    omega
  · intro hle
    rw [List.eq_nil_iff_forall_not_mem]
    intro f hf
    have hlabel := (hmem f.label.value).1 (List.mem_map_of_mem hf)
    have hone := hle f.label.value
    omega

/-- **The first farm that is noted** is the first one whose label occurs before it. -/
theorem firstRepeated_of_head? {farms : List Farm} {f : Farm}
    (h : (repeatedFarms [] farms).head? = some f) : FirstRepeated farms f := by
  induction farms using List.reverseRecOn with
  | nil => cases h
  | append_singleton farms g ih =>
    rw [repeatedFarms_concat, List.head?_append] at h
    cases hhead : (repeatedFarms [] farms).head? with
    | some f' =>
      rw [hhead] at h
      cases h
      obtain ⟨before, after, rfl, hbefore, hmem⟩ := ih hhead
      exact ⟨before, after ++ [g], by simp, hbefore, hmem⟩
    | none =>
      rw [hhead, List.count_nil, Nat.zero_add] at h
      have hnodup := repeatedFarms_eq_nil_iff.1 (List.head?_eq_none_iff.1 hhead)
      split at h
      · next hone =>
        cases h
        refine ⟨farms, [], rfl, hnodup, ?_⟩
        apply List.count_pos_iff.1
        omega
      · cases h

/-- What is observed of labels that are not unique. -/
lemma observeLabels_of_not_holds {farms : List Farm} (h : (observeLabels farms).holds = false) :
    ∃ f, FirstRepeated farms f ∧ (observeLabels farms).source? = some f.label.source ∧
      (observeLabels farms).found =
        "duplicate label(s) " ++ Text.joinWith ", " (farmLabels (repeatedFarms [] farms)) := by
  obtain ⟨f, rest, hagain⟩ : ∃ f rest, repeatedFarms [] farms = f :: rest := by
    apply List.exists_cons_of_ne_nil
    rintro hnil
    simp [observeLabels, hnil] at h
  refine ⟨f, firstRepeated_of_head? (by rw [hagain, List.head?_cons]), ?_, ?_⟩
  · simp [observeLabels, hagain]
  · simp [observeLabels, hagain, farmLabels]

/-- A rule with the one check that labels are unique has no violation in farms with unique labels,
and otherwise one at the place that is observed.

**Proof sketch.** All farms are observed at once, and without farms there is nothing to observe. The
one check passes or fails as the observation holds or not, and what is observed is a farm with a
source. -/
lemma violationsInFarms_of_isUniqueLabel {r : Rule} {c : Check} {config : FarmConfig}
    (hchecks : r.checks = [c]) (hc : c.condition = .isUniqueLabel) (hfail : c.failIf = false) :
    let o := observeLabels (config.farms.filter fun f => r.appliesTo f.type)
    r.violationsInFarms config = .ok (if o.holds then [] else
      [{ rule := r, context := r.contextOf c (c.details o), source? := o.source? }]) := by
  intro o
  have hmulti : r.isMultiTarget = true := by simp [Rule.isMultiTarget, hchecks, hc,
    Condition.isMultiTarget]
  unfold Rule.violationsInFarms
  cases hfarms : config.farms.filter fun f => r.appliesTo f.type with
  | nil =>
    have hholds : o.holds = true := by simp [o, hfarms, observeLabels, repeatedFarms]
    rw [hholds]
    rfl
  | cons first rest =>
    have ho : c.condition.observe (.farms (first :: rest)) = .ok o := by
      rw [hc]
      simp only [o, hfarms]
      rfl
    dsimp only
    rw [if_pos hmulti, Rule.violation?, hchecks]
    cases hholds : o.holds with
    | true =>
      have hpasses : ∀ b ∈ [c], b.PassesAt (.farms (first :: rest)) := by
        intro b hb
        rw [List.mem_singleton.1 hb]
        exact ⟨o, ho, by rw [hholds, hfail]; decide⟩
      have hrun := Rule.firstFailure?_append (r := r) hpasses (some first.label.source) []
      rw [List.append_nil] at hrun
      rw [hrun]
      rfl
    | false =>
      obtain ⟨f, -, hsource, -⟩ := observeLabels_of_not_holds hholds
      have hsource : o.source? = some f.label.source := hsource
      rw [Rule.firstFailure?_of_fails ho (hholds.trans hfail.symm) [], hsource]
      rfl

/-- **Whether labels are unique, and what is reported if not.** The condition holds of farms
exactly if their labels are pairwise different. Otherwise the repeated labels are reported, each
once and in the order of their second occurrences, at the place of the first farm whose label
occurs before it. A rule that checks this gives one violation with that report and place, or none.

**Proof sketch.** What has been noted after some of the farms names the labels that are repeated
among them (`repeats_repeatedFarms`), and begins with the first farm whose label is repeated
(`firstRepeated_of_head?`). -/
theorem repeated_labels_reported (farms : List Farm) :
    ∃ o, Condition.isUniqueLabel.observe (.farms farms) = .ok o ∧
      (o.holds = true ↔ (farmLabels farms).Nodup) ∧
      (o.holds = false → ∃ repeated f, Repeats (farmLabels farms) repeated ∧
        FirstRepeated farms f ∧ o.source? = some f.label.source ∧
        o.found = "duplicate label(s) " ++ Text.joinWith ", " repeated) ∧
      ∀ (r : Rule) (c : Check) (config : FarmConfig), r.checks = [c] →
        c.condition = .isUniqueLabel → c.failIf = false →
        (config.farms.filter fun f => r.appliesTo f.type) = farms →
        r.violationsInFarms config = .ok (if o.holds then [] else
          [{ rule := r, context := r.contextOf c (c.details o), source? := o.source? }]) := by
  refine ⟨observeLabels farms, rfl, ?_, ?_, ?_⟩
  · rw [← repeatedFarms_eq_nil_iff, ← List.isEmpty_iff]
    rfl
  · intro hholds
    obtain ⟨f, hf, hsource, hfound⟩ := observeLabels_of_not_holds hholds
    exact ⟨_, f, repeats_repeatedFarms farms, hf, hsource, hfound⟩
  · rintro r c config hchecks hc hfail rfl
    exact violationsInFarms_of_isUniqueLabel hchecks hc hfail

/-- Six farms on six lines, with two labels that are repeated. -/
def crowd : List Farm :=
  [("b", 1), ("a", 2), ("a", 3), ("b", 4), ("a", 5), ("c", 6)].map fun (label, line) =>
    { label := ⟨label, .ofLine "d.any" line none⟩ }

/-- A rule by which labels have to be unique. -/
def labelRule : Rule where
  id := "labels"
  element := "farm"
  checks := [{ condition := .isUniqueLabel }]

/-- The label on the third line is reported first although the other one comes first, and there is
no further report for its third occurrence. -/
theorem repeated_labels_of_crowd : ∃ repeated f v,
    Repeats (farmLabels crowd) repeated ∧ FirstRepeated crowd f ∧
    labelRule.violationsInFarms { farms := crowd } = .ok [v] ∧
    Text.joinWith ", " repeated = "a, b" ∧
    f.label.source = .ofLine "d.any" 3 none ∧ v.source? = some f.label.source ∧
    v.context = "farm: expected farm labels to be unique; found duplicate label(s) a, b" := by
  obtain ⟨o, ho, -, hreport, hrule⟩ := repeated_labels_reported crowd
  obtain rfl : observeLabels crowd = o := Except.ok.inj ho
  have hholds : (observeLabels crowd).holds = false := by decide +kernel
  obtain ⟨repeated, f, hrepeats, hf, hsource, hfound⟩ := hreport hholds
  have hviolations := hrule labelRule { condition := .isUniqueLabel } { farms := crowd } rfl rfl rfl
    (by decide +kernel)
  rw [hholds, if_neg Bool.false_ne_true] at hviolations
  have hobserved : (observeLabels crowd).found = "duplicate label(s) " ++ "a, b" ∧
      (observeLabels crowd).source? = some (.ofLine "d.any" 3 none) := by decide +kernel
  refine ⟨repeated, f, _, hrepeats, hf, hviolations, ?_, ?_, hsource, by decide +kernel⟩
  · exact (String.append_right_inj _).1 (hfound.symm.trans hobserved.1)
  · exact Option.some.inj (hsource.symm.trans hobserved.2)

end ProxyLint
