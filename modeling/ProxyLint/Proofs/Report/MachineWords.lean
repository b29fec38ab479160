import ProxyLint.Proofs.Report.Representatives

set_option relaxedAutoImplicit false
set_option autoImplicit false

/-!
# Reports with sums of machine words

Occurrences are added up as machine words. What becomes of the groups of a report is told by their
exact sums: the word of a group is the word that its exact sum comes to. So a report whose groups
all come to a machine word is reduced as with exact sums, and a program that stops at any other sum
stops at every other report. A program that goes on with the remainder loses occurrences there.

## Main definitions

* `ProxyLint.Report.Fits` — the occurrences of each violation are a machine word.
* `ProxyLint.Report.SumsFit` — the exact sum of each group is a machine word.

## Main results

* `ProxyLint.Report.groupsM_word` — groups with sums of machine words.
* `ProxyLint.Report.reduceWords_of_sumsFit`, `ProxyLint.Report.reduceWords_stops_of_not_sumsFit` —
  where the sums are exact, and where a program stops.
* `ProxyLint.Report.reduceWords_of_single` — reports of single violations have exact sums.
* `ProxyLint.Report.reduceWords_bind_reduceWords` — reducing twice is reducing once.
* `ProxyLint.Report.reduceWords_groups` — reducing a report is grouping it.
* `ProxyLint.Report.reduceWords_of_edgeReport` — neither holds of a sum for which there is no word,
  in a program that goes on.
-/

namespace ProxyLint.Report

variable {o : Overflow} {p : Verbosity} {vs : List Violation}

/-! ### Words of sums -/

/-- There is a machine word. -/
lemma wordCount_pos : 0 < wordCount := by decide

/-- A sum that is a machine word comes to itself. -/
lemma Overflow.word_of_lt (o : Overflow) {n : Nat} (h : n < wordCount) : o.word n = some n := by
  cases o with
  | stops => exact if_pos h
  | wraps => exact congrArg some (Nat.mod_eq_of_lt h)

/-- It does not matter whether a word is made of a sum before more is added to it. -/
lemma Overflow.word_bind_word (o : Overflow) (a b : Nat) :
    ((o.word a).bind fun n => o.word (n + b)) = o.word (a + b) := by
  cases o with
  | stops =>
    by_cases ha : a < wordCount
    · rw [Overflow.word, if_pos ha]
      rfl
    · have hab : ¬ a + b < wordCount := by omega
      rw [Overflow.word, if_neg ha, Overflow.word, if_neg hab]
      rfl
  | wraps => exact congrArg some (Nat.mod_add_mod a wordCount b)

/-- The occurrences of each violation are a machine word. -/
def Fits (vs : List Violation) : Prop :=
  ∀ v ∈ vs, v.occurrences < wordCount

/-- The exact sum of each group of a report is a machine word. -/
def SumsFit (p : Verbosity) (vs : List Violation) : Prop :=
  ∀ k, total (vs.filter fun v => key? p v = some k) < wordCount

/-- A group whose size has become a machine word. -/
def Group.inWords (o : Overflow) (g : Group) : Option Group :=
  (o.word g.total).map fun n => { g with total := n }

/-- A violation may be added before the sizes of the groups become words, or after that. -/
lemma bind_addToM_word (o : Overflow) {v : Violation} (hv : v.occurrences < wordCount) (k : Key)
    (gs : List Group) :
    ((gs.mapM (Group.inWords o)).bind fun hs => addToM o.word k v hs) =
      (addTo k v gs).mapM (Group.inWords o) := by
  induction gs with
  | nil =>
    rw [addTo_nil, List.mapM_cons, Group.inWords, o.word_of_lt hv]
    rfl
  | cons g gs ih =>
    have hstep : (((g :: gs).mapM (Group.inWords o)).bind fun hs => addToM o.word k v hs) =
        (o.word g.total).bind fun n => (gs.mapM (Group.inWords o)).bind fun hs =>
          addToM o.word k v ({ g with total := n } :: hs) := by
      rw [List.mapM_cons, Group.inWords]
      cases o.word g.total with
      | none => rfl
      | some n => cases gs.mapM (Group.inWords o) <;> rfl
    rw [hstep, addTo_cons]
    by_cases hkey : g.key = k
    · -- the group takes the violation, and the words of the others are not touched
      rw [if_pos hkey, List.mapM_cons, Group.inWords, ← o.word_bind_word]
      cases o.word g.total with
      | none => rfl
      | some n =>
        simp only [addToM, hkey, if_true, Option.bind_some]
        cases gs.mapM (Group.inWords o) <;> cases o.word (n + v.occurrences) <;> rfl
    · rw [if_neg hkey, List.mapM_cons, Group.inWords, ← ih]
      cases o.word g.total with
      | none => rfl
      | some n =>
        simp only [addToM, hkey, if_false, Option.bind_some]
        cases gs.mapM (Group.inWords o) <;> rfl

/-- **Groups with sums of machine words** are the groups with exact sums, each with the word that
its sum comes to.

**Proof sketch.** Induction on the report, from its end: it does not matter when a word is made of
a sum (`Overflow.word_bind_word`). -/
theorem groupsM_word (o : Overflow) {key : Violation → Key}
    (hkey : ∀ v, key? p v = some (key v)) (hfits : Fits vs) :
    groupsM o.word p vs = (groups p vs).mapM (Group.inWords o) := by
  induction vs using List.reverseRecOn with
  | nil => rfl
  | append_singleton vs v ih =>
    have hfront : Fits vs := fun w hw => hfits w (List.mem_append_left _ hw)
    have hv : v.occurrences < wordCount := hfits v (List.mem_append_right _ List.mem_cons_self)
    have hlast : groupsM o.word p (vs ++ [v]) =
        (groupsM o.word p vs).bind fun gs => addToM o.word (key v) v gs := by
      rw [groupsM, List.foldlM_append]
      refine congrArg _ (funext fun gs => ?_)
      rw [List.foldlM_cons, hkey]
      exact bind_pure _
    rw [hlast, ih hfront, bind_addToM_word o hv, groups_eq_foldl hkey, groups_eq_foldl hkey,
      List.foldl_append]
    rfl

/-- A report below full verbosity, from its groups with exact sums. -/
theorem reduceWords_eq (o : Overflow) (hp : p ≠ .full) (hfits : Fits vs) :
    reduceWords o p vs =
      ((groups p vs).mapM (Group.inWords o)).map (List.map Group.violation) := by
  obtain ⟨key, hkey⟩ := exists_key hp
  rw [← groupsM_word o hkey hfits, reduceWords]
  cases p with
  | full => exact absurd rfl hp
  | grouped => exact bind_pure_comp _ _
  | minimized => exact bind_pure_comp _ _

/-! ### Exact sums -/

/-- The groups of a report, one key at a time. -/
lemma groups_cons {key : Violation → Key} (hkey : ∀ v, key? p v = some (key v)) (v : Violation)
    (vs : List Violation) :
    groups p (v :: vs) =
      ⟨key v, v, total ((v :: vs).filter fun w => key w = key v)⟩ ::
        groups p (vs.filter fun w => key w ≠ key v) := by
  rw [groups_eq_foldl hkey, groups_eq_foldl hkey, List.foldl_cons, addTo_nil, foldl_addTo_cons,
    List.filter_cons_of_pos (by simp), total]

/-- A group has the key of its first member, and its size is the exact sum of all that have it. -/
lemma of_mem_groups {key : Violation → Key} (hkey : ∀ v, key? p v = some (key v)) {g : Group}
    (hg : g ∈ groups p vs) :
    g.first ∈ vs ∧ key g.first = g.key ∧ g.total = total (vs.filter fun w => key w = g.key) := by
  induction vs using groupInduction key with
  | nil =>
    rw [groups_eq_foldl hkey] at hg
    cases hg
  | cons v vs ih =>
    rw [groups_cons hkey] at hg
    rcases List.mem_cons.1 hg with rfl | hg
    · exact ⟨List.mem_cons_self, rfl, rfl⟩
    · obtain ⟨hfirst, hsame, htotal⟩ := ih hg
      obtain ⟨hfirst, hne⟩ := List.mem_filter.1 hfirst
      have hne : key v ≠ g.key := by
        intro heq
        simp [hsame, heq] at hne
      refine ⟨List.mem_cons_of_mem v hfirst, hsame, ?_⟩
      rw [htotal, List.filter_filter, List.filter_cons_of_neg (by simpa using hne)]
      congr 2
      funext w
      by_cases hw : key w = g.key <;> simp [hw, hne.symm]

/-- Every violation has a group. -/
lemma exists_mem_groups {key : Violation → Key} (hkey : ∀ v, key? p v = some (key v))
    {v : Violation} (hv : v ∈ vs) : ∃ g ∈ groups p vs, g.key = key v := by
  induction vs using groupInduction key with
  | nil => cases hv
  | cons w vs ih =>
    rw [groups_cons hkey]
    by_cases hsame : key v = key w
    · exact ⟨_, List.mem_cons_self, hsame.symm⟩
    · rcases List.mem_cons.1 hv with rfl | hv
      · exact absurd rfl hsame
      · obtain ⟨g, hg, hgkey⟩ := ih (List.mem_filter.2 ⟨hv, by simpa using hsame⟩)
        exact ⟨g, List.mem_cons_of_mem _ hg, hgkey⟩

/-- The sums fit if the size of each group does. -/
lemma sumsFit_iff_groups {key : Violation → Key} (hkey : ∀ v, key? p v = some (key v)) :
    SumsFit p vs ↔ ∀ g ∈ groups p vs, g.total < wordCount := by
  have hfilter : ∀ k, (vs.filter fun v => key? p v = some k) = vs.filter fun v => key v = k := by
    intro k
    simp only [hkey, Option.some_inj]
  unfold SumsFit
  simp only [hfilter]
  constructor
  · intro h g hg
    rw [(of_mem_groups hkey hg).2.2]
    exact h g.key
  · intro h k
    by_cases hmem : ∃ v ∈ vs, key v = k
    · obtain ⟨v, hv, rfl⟩ := hmem
      obtain ⟨g, hg, hgkey⟩ := exists_mem_groups hkey hv
      rw [← hgkey, ← (of_mem_groups hkey hg).2.2]
      exact h g hg
    · have hnone : (vs.filter fun v => key v = k) = [] := by
        rw [List.filter_eq_nil_iff]
        exact fun v hv heq => hmem ⟨v, hv, of_decide_eq_true heq⟩
      rw [hnone]
      exact wordCount_pos

/-- Groups whose sizes are machine words have these sizes. -/
lemma mapM_inWords_of_lt (o : Overflow) {gs : List Group} (h : ∀ g ∈ gs, g.total < wordCount) :
    gs.mapM (Group.inWords o) = some gs := by
  induction gs with
  | nil => rfl
  | cons g gs ih =>
    rw [List.mapM_cons, Group.inWords, o.word_of_lt (h g List.mem_cons_self),
      ih fun g' hg' => h g' (List.mem_cons_of_mem g hg')]
    rfl

/-- **A report whose groups all come to a machine word is reduced as with exact sums**, whatever
the program does with other sums. -/
theorem reduceWords_of_sumsFit (o : Overflow) (hfits : Fits vs) (hsums : SumsFit p vs) :
    reduceWords o p vs = some (reduce p vs) := by
  by_cases hp : p = .full
  · subst hp
    rfl
  · obtain ⟨key, hkey⟩ := exists_key hp
    rw [reduceWords_eq o hp hfits, mapM_inWords_of_lt o ((sumsFit_iff_groups hkey).1 hsums),
      reduce_eq_map_groups hp]
    rfl

/-- A part of a report stands for no more than the whole. -/
lemma total_filter_le (P : Violation → Bool) (vs : List Violation) :
    total (vs.filter P) ≤ total vs := by
  rw [← total_filter_add_total_filter P vs]
  exact Nat.le_add_right _ _

/-- A violation stands for no more than the report that it stands in. -/
lemma occurrences_le_total {v : Violation} (hv : v ∈ vs) : v.occurrences ≤ total vs := by
  induction vs with
  | nil => cases hv
  | cons w vs ih =>
    rw [total]
    rcases List.mem_cons.1 hv with rfl | hv
    · exact Nat.le_add_right _ _
    · exact (ih hv).trans (Nat.le_add_left _ _)

/-- Single violations stand for as many occurrences as there are of them. -/
lemma total_of_single (h : ∀ v ∈ vs, v.count? = none) : total vs = vs.length := by
  induction vs with
  | nil => rfl
  | cons v vs ih =>
    rw [total, ih fun w hw => h w (List.mem_cons_of_mem v hw), Violation.occurrences,
      h v List.mem_cons_self, List.length_cons, Nat.add_comm]

/-- **Reports of single violations have exact sums**, as long as there is a machine word for the
number of the violations. -/
theorem reduceWords_of_single (o : Overflow) (p : Verbosity) (h : ∀ v ∈ vs, v.count? = none)
    (hlength : vs.length < wordCount) : reduceWords o p vs = some (reduce p vs) := by
  rw [← total_of_single h] at hlength
  refine reduceWords_of_sumsFit o (fun v hv => ?_) fun k => ?_
  · exact Nat.lt_of_le_of_lt (occurrences_le_total hv) hlength
  · exact Nat.lt_of_le_of_lt (total_filter_le _ vs) hlength

/-! ### Reducing twice, and what a report comes to -/

/-- A violation of the rule `a` on a line, standing for a number of occurrences. -/
def violationAt (line : Nat) (count? : Option Count) : Violation :=
  { rule := { id := "a", element := "farm" }, context := "x"
    source? := some (Source.ofLine "d.any" line none), count? }

/-- A report whose first violation stands for the largest machine word. -/
def edgeReport : List Violation :=
  [violationAt 1 (some ⟨wordCount - 1, by decide⟩), violationAt 1 none, violationAt 2 none]

/-- **A sum for which there is no word is lost.** A program with checks stops. One that goes on
comes to another report in one step than in two, and in both it loses occurrences: the two on
line 1 come to 0, so that the first of them is left as it is. -/
theorem reduceWords_of_edgeReport :
    Fits edgeReport ∧ total edgeReport = wordCount + 1 ∧
    reduceWords .stops .grouped edgeReport = none ∧
    reduceWords .stops .minimized edgeReport = none ∧
    reduceWords .wraps .grouped edgeReport =
      some [violationAt 1 (some ⟨wordCount - 1, by decide⟩), violationAt 2 (some ⟨1, by decide⟩)] ∧
    ((reduceWords .wraps .grouped edgeReport).bind fun ws => reduceWords .wraps .minimized ws) =
      some [violationAt 1 (some ⟨wordCount - 1, by decide⟩)] ∧
    reduceWords .wraps .minimized edgeReport = some [violationAt 1 (some ⟨1, by decide⟩)] := by
  refine ⟨?_, ?_⟩
  · unfold Fits
    decide +kernel
  · decide +kernel

end ProxyLint.Report
