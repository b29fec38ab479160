import Mathlib.Data.List.Basic
import Mathlib.Data.List.Induction
import ProxyLint.Report.Format

set_option relaxedAutoImplicit false
set_option autoImplicit false

/-!
# What grouping keeps

A group is represented by its first member, and so is its severity. If all
violations of one rule have one severity, grouping moves no violation from one
severity to another: a reduced report stands for as many violations of each
severity as the report it was made of.

## Main definitions

* `ProxyLint.Report.SameCounts` — reports that stand for as many violations of each
  severity.
* `ProxyLint.Report.OneSeverity` — a rule id has one severity throughout a report.
* `ProxyLint.Report.addTo`, `ProxyLint.Report.groups` — groups with exact sums.
* `ProxyLint.Report.Collects` — what groups say about the violations they were
  collected from.

## Main results

* `ProxyLint.Report.SameCounts.summary_eq`, `ProxyLint.Report.SameCounts.hasAtLeast_eq`
  — counts decide the summary of a report and what it reaches.
* `ProxyLint.Report.collects_groups` — the violations of a report are collected.
* `ProxyLint.Report.sameCounts_reduce` — reducing a report keeps the counts.
-/

namespace ProxyLint.Report

/-! ### Counts -/

/-- Each violation stands for at least one. -/
lemma occurrences_pos (v : Violation) : 0 < v.occurrences := by
  unfold Violation.occurrences
  cases v.count? with
  | none => exact Nat.one_pos
  | some n => exact n.property

/-- The empty report counts nothing. -/
@[simp] lemma countAt_nil (s : Severity) : countAt [] s = 0 := rfl

/-- A violation counts at its severity. -/
lemma countAt_cons (v : Violation) (vs : List Violation) (s : Severity) :
    countAt (v :: vs) s = (if v.rule.severity = s then v.occurrences else 0) + countAt vs s := by
  unfold countAt
  by_cases hs : v.rule.severity = s
  · rw [List.filter_cons_of_pos (by simpa using hs), total, if_pos hs]
  · rw [List.filter_cons_of_neg (by simpa using hs), if_neg hs, Nat.zero_add]

/-- Reports in a row are counted together. -/
lemma countAt_append (vs ws : List Violation) (s : Severity) :
    countAt (vs ++ ws) s = countAt vs s + countAt ws s := by
  induction vs with
  | nil => simp
  | cons v vs ih => rw [List.cons_append, countAt_cons, countAt_cons, ih, Nat.add_assoc]

/-- A severity is counted exactly if it occurs. -/
lemma countAt_pos_iff {vs : List Violation} {s : Severity} :
    0 < countAt vs s ↔ ∃ v ∈ vs, v.rule.severity = s := by
  induction vs with
  | nil => simp
  | cons v vs ih =>
    rw [countAt_cons, Nat.add_pos_iff_pos_or_pos, ih, List.exists_mem_cons_iff]
    refine or_congr_left ?_
    split
    · next hs => exact iff_of_true (occurrences_pos v) hs
    · next hs => exact iff_of_false (Nat.lt_irrefl 0) hs

/-- Two reports stand for as many violations of each severity. -/
def SameCounts (vs ws : List Violation) : Prop :=
  ∀ s, countAt vs s = countAt ws s

namespace SameCounts

variable {vs ws : List Violation}

/-- Reports with the same counts have violations at the same severities. -/
lemma exists_mem_iff (h : SameCounts vs ws) (s : Severity) :
    (∃ v ∈ vs, v.rule.severity = s) ↔ ∃ w ∈ ws, w.rule.severity = s := by
  rw [← countAt_pos_iff, h s, countAt_pos_iff]

/-- Counts decide which severities occur, and with it the summary. -/
theorem summary_eq (h : SameCounts vs ws) : summary vs = summary ws := by
  have hoccurs : ∀ s, (vs.any fun v => v.rule.severity == s) =
      ws.any fun w => w.rule.severity == s := by
    intro s
    rw [Bool.eq_iff_iff, List.any_eq_true, List.any_eq_true]
    simpa using h.exists_mem_iff s
  unfold summary
  simp only [hoccurs, h _]

/-- Counts decide which severities are reached. -/
theorem hasAtLeast_eq (h : SameCounts vs ws) (s : Severity) :
    hasAtLeast vs s = hasAtLeast ws s := by
  have hreaches : ∀ us : List Violation, hasAtLeast us s = true ↔
      ∃ s', s.rank ≤ s'.rank ∧ ∃ u ∈ us, u.rule.severity = s' := by
    intro us
    rw [hasAtLeast, List.any_eq_true]
    constructor
    · rintro ⟨u, hu, hrank⟩
      exact ⟨u.rule.severity, of_decide_eq_true hrank, u, hu, rfl⟩
    · rintro ⟨s', hrank, u, hu, rfl⟩
      exact ⟨u, hu, decide_eq_true hrank⟩
  rw [Bool.eq_iff_iff, hreaches, hreaches]
  simp only [h.exists_mem_iff]

end SameCounts

/-! ### Groups -/

/-- Violations of rules with one id have one severity. -/
def OneSeverity (vs : List Violation) : Prop :=
  ∀ v ∈ vs, ∀ w ∈ vs, v.rule.id = w.rule.id → v.rule.severity = w.rule.severity

/-- The members of a group violate rules with one id. -/
lemma id_eq_of_key? {verbosity : Verbosity} {v w : Violation} {k : Key}
    (hv : key? verbosity v = some k) (hw : key? verbosity w = some k) : v.rule.id = w.rule.id := by
  rw [← hw] at hv
  cases verbosity with
  | full => cases hw
  | grouped =>
    simp only [key?, Option.some.injEq, Key.place.injEq] at hv
    exact hv.1
  | minimized => simpa [key?] using hv

/-- A group is represented by a violation of the same rule. -/
@[simp] lemma rule_violation (g : Group) : g.violation.rule = g.first.rule := by
  unfold Group.violation
  split <;> rfl

/-- A group is represented by a violation that stands for its size. -/
lemma occurrences_violation {g : Group} (h : 0 < g.total) : g.violation.occurrences = g.total := by
  rw [Group.violation, dif_pos h]
  rfl

/-- Adds a violation to its group, or opens a group for it; the sum is exact. -/
def addTo (k : Key) (v : Violation) (gs : List Group) : List Group :=
  (addToM (m := Id) pure k v gs).run

/-- The first violation of a key opens a group. -/
lemma addTo_nil (k : Key) (v : Violation) : addTo k v [] = [⟨k, v, v.occurrences⟩] := rfl

/-- A violation goes to the first group with its key. -/
lemma addTo_cons (k : Key) (v : Violation) (g : Group) (gs : List Group) :
    addTo k v (g :: gs) =
      if g.key = k then { g with total := g.total + v.occurrences } :: gs
      else g :: addTo k v gs := by
  unfold addTo
  rw [addToM]
  split <;> rfl

/-- The violations collected into groups, with exact sums. -/
def groups (verbosity : Verbosity) (vs : List Violation) : List Group :=
  (groupsM (m := Id) pure verbosity vs).run

/-- Violations are added from left to right. -/
lemma groups_eq_foldl {verbosity : Verbosity} {key : Violation → Key}
    (hkey : ∀ v, key? verbosity v = some (key v)) (vs : List Violation) :
    groups verbosity vs = vs.foldl (fun gs v => addTo (key v) v gs) [] := by
  rw [groups, groupsM, List.idRun_foldlM]
  simp only [hkey]
  rfl

/-- Below full verbosity, a report is reduced to the first members of its groups. -/
lemma reduce_eq_map_groups {verbosity : Verbosity} (h : verbosity ≠ .full)
    (vs : List Violation) :
    reduce verbosity vs = (groups verbosity vs).map Group.violation := by
  cases verbosity with
  | full => exact absurd rfl h
  | grouped => rfl
  | minimized => rfl

/-- Below full verbosity, every violation has a key. -/
lemma exists_key {verbosity : Verbosity} (h : verbosity ≠ .full) :
    ∃ key : Violation → Key, ∀ v, key? verbosity v = some (key v) := by
  cases verbosity with
  | full => exact absurd rfl h
  | grouped => exact ⟨_, fun _ => rfl⟩
  | minimized => exact ⟨_, fun _ => rfl⟩

/-- What groups say about the violations that they were collected from. -/
structure Collects (verbosity : Verbosity) (vs : List Violation) (gs : List Group) : Prop where
  /-- No group is empty. -/
  total_pos : ∀ g ∈ gs, 0 < g.total
  /-- A group has one of the violations as its first member. -/
  first_mem : ∀ g ∈ gs, g.first ∈ vs
  /-- The first member has the key of the group. -/
  key_first : ∀ g ∈ gs, key? verbosity g.first = some g.key
  /-- The groups stand for as many violations of each severity. -/
  counts : SameCounts (gs.map Group.violation) vs

/-- A group after a violation has been added was there before, is new, or was there
with a smaller total. -/
lemma mem_addTo {k : Key} {v : Violation} {gs : List Group} {g : Group} (h : g ∈ addTo k v gs) :
    g ∈ gs ∨ g = ⟨k, v, v.occurrences⟩ ∨
      ∃ g' ∈ gs, g = { g' with total := g'.total + v.occurrences } := by
  induction gs with
  | nil => exact .inr (.inl (List.mem_singleton.1 h))
  | cons g' gs ih =>
    rw [addTo_cons] at h
    split at h
    · rcases List.mem_cons.1 h with rfl | h
      · exact .inr (.inr ⟨g', List.mem_cons_self, rfl⟩)
      · exact .inl (List.mem_cons_of_mem _ h)
    · rcases List.mem_cons.1 h with rfl | h
      · exact .inl List.mem_cons_self
      · rcases ih h with h | h | ⟨g₁, hg₁, h⟩
        · exact .inl (List.mem_cons_of_mem _ h)
        · exact .inr (.inl h)
        · exact .inr (.inr ⟨g₁, List.mem_cons_of_mem _ hg₁, h⟩)

/-- A violation that is added is counted at its severity, if the first member of its
group has the same. -/
lemma countAt_addTo {k : Key} {v : Violation} {gs : List Group} (hpos : ∀ g ∈ gs, 0 < g.total)
    (hsame : ∀ g ∈ gs, g.key = k → g.first.rule.severity = v.rule.severity) (s : Severity) :
    countAt ((addTo k v gs).map Group.violation) s =
      countAt (gs.map Group.violation) s + countAt [v] s := by
  induction gs with
  | nil =>
    have hnew : (⟨k, v, v.occurrences⟩ : Group).violation.occurrences = v.occurrences :=
      occurrences_violation (occurrences_pos v)
    simp only [addTo_nil, List.map_cons, List.map_nil, countAt_cons, rule_violation, hnew,
      countAt_nil, Nat.zero_add]
  | cons g gs ih =>
    have hg := hpos g List.mem_cons_self
    rw [addTo_cons]
    split
    · next hkey =>
      have hseverity := hsame g List.mem_cons_self hkey
      have hgrown : ({ g with total := g.total + v.occurrences } : Group).violation.occurrences =
          g.total + v.occurrences := occurrences_violation (by dsimp only; omega)
      simp only [List.map_cons, countAt_cons, rule_violation, hgrown, occurrences_violation hg,
        hseverity, countAt_nil]
      split <;> omega
    · have hrest := ih (fun g' hg' => hpos g' (List.mem_cons_of_mem g hg'))
        fun g' hg' => hsame g' (List.mem_cons_of_mem g hg')
      rw [List.map_cons, List.map_cons, countAt_cons, countAt_cons, hrest, Nat.add_assoc]

/-- One more violation is collected. -/
lemma Collects.addTo {verbosity : Verbosity} {vs : List Violation} {gs : List Group}
    (h : Collects verbosity vs gs) {v : Violation} {k : Key} (hk : key? verbosity v = some k)
    (hone : OneSeverity (vs ++ [v])) : Collects verbosity (vs ++ [v]) (addTo k v gs) := by
  have hlast : v ∈ vs ++ [v] := List.mem_append_right _ List.mem_cons_self
  refine ⟨fun g hg => ?_, fun g hg => ?_, fun g hg => ?_, fun s => ?_⟩
  · rcases mem_addTo hg with hg | rfl | ⟨g', hg', rfl⟩
    · exact h.total_pos g hg
    · exact occurrences_pos v
    · exact Nat.add_pos_left (h.total_pos g' hg') _
  · rcases mem_addTo hg with hg | rfl | ⟨g', hg', rfl⟩
    · exact List.mem_append_left _ (h.first_mem g hg)
    · exact hlast
    · exact List.mem_append_left _ (h.first_mem g' hg')
  · rcases mem_addTo hg with hg | rfl | ⟨g', hg', rfl⟩
    · exact h.key_first g hg
    · exact hk
    · exact h.key_first g' hg'
  · have hsame : ∀ g ∈ gs, g.key = k → g.first.rule.severity = v.rule.severity := by
      rintro g hg rfl
      exact hone _ (List.mem_append_left _ (h.first_mem g hg)) _ hlast
        (id_eq_of_key? (h.key_first g hg) hk)
    rw [countAt_addTo h.total_pos hsame, h.counts s, countAt_append]

/-- **The violations of a report are collected into its groups**, one after the other,
if a rule id has one severity throughout. -/
theorem collects_groups {verbosity : Verbosity} (hfull : verbosity ≠ .full)
    {vs : List Violation} (hone : OneSeverity vs) :
    Collects verbosity vs (groups verbosity vs) := by
  induction vs using List.reverseRecOn with
  | nil =>
    refine ⟨fun g hg => ?_, fun g hg => ?_, fun g hg => ?_, fun s => rfl⟩ <;> cases hg
  | append_singleton vs v ih =>
    obtain ⟨key, hkey⟩ := exists_key hfull
    have hfront : OneSeverity vs := fun a ha b hb =>
      hone a (List.mem_append_left _ ha) b (List.mem_append_left _ hb)
    rw [groups_eq_foldl hkey, List.foldl_append, ← groups_eq_foldl hkey]
    exact (ih hfront).addTo (hkey v) hone

/-- **Reducing a report keeps how many violations of each severity it stands for**, if
a rule id has one severity throughout. -/
theorem sameCounts_reduce (verbosity : Verbosity) {vs : List Violation} (hone : OneSeverity vs) :
    SameCounts (reduce verbosity vs) vs := by
  by_cases hfull : verbosity = .full
  · subst hfull
    exact fun s => rfl
  · rw [reduce_eq_map_groups hfull]
    exact (collects_groups hfull hone).counts

end ProxyLint.Report
