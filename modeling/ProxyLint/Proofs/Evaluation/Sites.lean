import Mathlib.Data.List.ReduceOption
import ProxyLint.Evaluation
import ProxyLint.Proofs.Rule.Unique

set_option relaxedAutoImplicit false
set_option autoImplicit false

/-!
# Sites of rules

Rules are evaluated at sites, one after the other: the targets that each of the enabled rules of
the dialect has in a configuration, in order. A site gives a violation or none, by the first of
the checks that fails there, unless a check does not fit; then the evaluation ends.

## Main definitions

* `ProxyLint.Site` — a target of a rule, or a place where the rule does not fit.
* `ProxyLint.RuleList.sites` — the sites of a list of rules in a configuration.
* `ProxyLint.Site.Gives`, `ProxyLint.Site.Aborts` — what checking a site comes to.

## Main results

* `ProxyLint.Site.outcome_eq_ok_iff`, `ProxyLint.Site.outcome_eq_error_iff` — the outcome of a
  site is decided by the first check that does not pass.
* `ProxyLint.RuleList.evaluate_eq_run` — rules are evaluated site by site.
* `ProxyLint.HttpdConfig.isOrdered_of_select` — sections are selected in the order of their
  numbers.
-/

namespace ProxyLint

/-! ### Steps that may fail -/

section Traversal

variable {ε α β : Type} {f : α → Except ε β} {as : List α}

/-- A list is gone through without an error if no member gives one. -/
lemma mapM_eq_ok_iff {bs : List β} :
    as.mapM f = .ok bs ↔ List.Forall₂ (fun a b => f a = .ok b) as bs := by
  induction as generalizing bs with
  | nil => simp [pure, Except.pure, eq_comm]
  | cons a as ih =>
    rw [List.mapM_cons, List.forall₂_cons_left_iff]
    constructor
    · intro h
      obtain ⟨b, hb, h⟩ := exists_ok_of_bind h
      obtain ⟨bs', hbs', h⟩ := exists_ok_of_bind h
      cases h
      exact ⟨b, bs', hb, ih.1 hbs', rfl⟩
    · rintro ⟨b, bs', hb, hbs', rfl⟩
      rw [hb, ih.2 hbs']
      rfl

/-- A list of steps ends with the error of the first step that has one.

**Proof sketch.** Induction on the list: either the first step has an error, or it has none and the
others end with one. -/
lemma mapM_eq_error_iff {e : ε} :
    as.mapM f = .error e ↔ ∃ before a after, as = before ++ a :: after ∧
      (∀ b ∈ before, ∃ x, f b = .ok x) ∧ f a = .error e := by
  induction as with
  | nil => simp [pure, Except.pure]
  | cons a as ih =>
    rw [List.mapM_cons]
    simp only [List.cons_eq_append_iff]
    cases ha : f a with
    | error e' =>
      constructor
      · intro h
        cases h
        exact ⟨[], a, as, .inl ⟨rfl, rfl⟩, by simp, ha⟩
      · rintro ⟨before, x, after, ⟨rfl, hcons⟩ | ⟨before', rfl, -⟩, hbefore, hx⟩
        · cases hcons
          rw [← ha, hx]
          rfl
        · obtain ⟨y, hy⟩ := hbefore a List.mem_cons_self
          rw [ha] at hy
          cases hy
    | ok b =>
      have hrest : (do let bs ← as.mapM f; return b :: bs : Except ε (List β)) = .error e ↔
          as.mapM f = .error e := by
        cases as.mapM f <;> simp [bind, Except.bind, pure, Except.pure]
      refine hrest.trans (ih.trans ?_)
      constructor
      · rintro ⟨before, x, after, rfl, hbefore, hx⟩
        exact ⟨a :: before, x, after, .inr ⟨before, rfl, rfl⟩,
          List.forall_mem_cons.2 ⟨⟨b, ha⟩, hbefore⟩, hx⟩
      · rintro ⟨before, x, after, ⟨rfl, hcons⟩ | ⟨before', rfl, rfl⟩, hbefore, hx⟩
        · cases hcons
          rw [ha] at hx
          cases hx
        · exact ⟨before', x, after, rfl, (List.forall_mem_cons.1 hbefore).2, hx⟩

/-- Each member of a list has a counterpart in a related one. -/
lemma exists_of_forall₂_of_mem {R : α → β → Prop} {bs : List β} (h : List.Forall₂ R as bs) {a : α}
    (ha : a ∈ as) : ∃ b ∈ bs, R a b := by
  induction h with
  | nil => cases ha
  | cons hab _ ih =>
    rcases List.mem_cons.1 ha with rfl | ha
    · exact ⟨_, List.mem_cons_self, hab⟩
    · obtain ⟨b, hb, hrel⟩ := ih ha
      exact ⟨b, List.mem_cons_of_mem _ hb, hrel⟩

end Traversal

/-! ### Checks -/

namespace Check

/-- A check finds something else than what it must not find. -/
def PassesAt (c : Check) (t : Target) : Prop :=
  ∃ o, c.condition.observe t = .ok o ∧ o.holds ≠ c.failIf

/-- What was expected and found. -/
def details (c : Check) (o : Observation) : String :=
  (if c.failIf then "did not expect " else "expected ") ++ c.condition.text ++ "; found " ++ o.found

/-- What a check comes to, by what it observes. -/
lemma perform_eq (c : Check) (t : Target) :
    c.perform t = (c.condition.observe t).map fun o =>
      if o.holds = c.failIf then
        { passed := false, details := c.details o, source? := o.source? }
      else { passed := true } := by
  unfold perform details
  cases c.condition.observe t with
  | error m => rfl
  | ok o =>
    simp only [bind, Except.bind, Except.map, bne_iff_ne, ne_eq, ite_not]
    split <;> rfl

end Check

/-! ### Sites -/

/-- A site of the evaluation. -/
inductive Site where
  /-- A rule that does not fit the configuration. -/
  | misfit (rule : Rule) (why : Misfit)
  /-- A target of a rule. A failure without a place of its own is at `place`. -/
  | check (rule : Rule) (target : Target) (place : Source)
  deriving DecidableEq, Repr, Inhabited

namespace Site

/-- The rule of a site. -/
def rule : Site → Rule
  | misfit r _ => r
  | check r _ _ => r

/-- A site gives no violation if all checks of the rule pass, and otherwise that of the first one
that fails. -/
inductive Gives : Site → Option Violation → Prop where
  | passes {r : Rule} {target : Target} {place : Source}
      (h : ∀ c ∈ r.checks, c.PassesAt target) : Gives (check r target place) none
  | fails {r : Rule} {target : Target} {place : Source} {before after : List Check} {c : Check}
      {o : Observation} (hchecks : r.checks = before ++ c :: after)
      (hbefore : ∀ b ∈ before, b.PassesAt target) (ho : c.condition.observe target = .ok o)
      (hfails : o.holds = c.failIf) :
      Gives (check r target place)
        (some { rule := r, context := r.contextOf c (c.details o)
                source? := some (o.source?.getD place) })

/-- A site ends the evaluation if the rule does not fit there, or if the first check that does not
pass cannot be applied. -/
inductive Aborts : Site → EvaluationError → Prop where
  | misfit {r : Rule} {m : Misfit} : Aborts (misfit r m) (r.misfit m)
  | check {r : Rule} {target : Target} {place : Source} {before after : List Check} {c : Check}
      {m : Misfit} (hchecks : r.checks = before ++ c :: after)
      (hbefore : ∀ b ∈ before, b.PassesAt target) (hm : c.condition.observe target = .error m) :
      Aborts (check r target place) (r.misfit m)

/-- What checking a site comes to. -/
def outcome : Site → Except EvaluationError (Option Violation)
  | misfit r m => .error (r.misfit m)
  | check r target place => r.violation? target (some place)

end Site

namespace Rule

variable {r : Rule} {t : Target} {place : Source} {checks : List Check}

/-- Checks that pass are passed over. -/
lemma firstFailure?_append {before : List Check} (h : ∀ b ∈ before, b.PassesAt t)
    (fallback? : Option Source) (rest : List Check) :
    r.firstFailure? t fallback? (before ++ rest) = r.firstFailure? t fallback? rest := by
  induction before with
  | nil => rfl
  | cons b before ih =>
    obtain ⟨⟨o, ho, hne⟩, hrest⟩ := List.forall_mem_cons.1 h
    rw [List.cons_append, firstFailure?, b.perform_eq, ho]
    simpa [fitting, Except.map, Except.mapError, bind, Except.bind, hne] using ih hrest

/-- The first check that fails is the violation. -/
lemma firstFailure?_of_fails {c : Check} {o : Observation} (ho : c.condition.observe t = .ok o)
    (hfails : o.holds = c.failIf) (rest : List Check) :
    r.firstFailure? t (some place) (c :: rest) = .ok (some
      { rule := r, context := r.contextOf c (c.details o)
        source? := some (o.source?.getD place) }) := by
  rw [firstFailure?, c.perform_eq, ho]
  cases hs : o.source? <;>
    simp [fitting, Except.map, Except.mapError, bind, Except.bind, hfails, hs, pure, Except.pure]

/-- A check that does not fit the target ends the rule with an error. -/
lemma firstFailure?_of_misfit {c : Check} {m : Misfit} (hm : c.condition.observe t = .error m)
    (fallback? : Option Source) (rest : List Check) :
    r.firstFailure? t fallback? (c :: rest) = .error (r.misfit m) := by
  rw [firstFailure?, c.perform_eq, hm]
  rfl

/-- Either all checks pass, or there is a first one that does not. -/
lemma passes_or_exists_first (t : Target) (checks : List Check) :
    (∀ c ∈ checks, c.PassesAt t) ∨ ∃ before c after, checks = before ++ c :: after ∧
      (∀ b ∈ before, b.PassesAt t) ∧ ¬ c.PassesAt t := by
  induction checks with
  | nil => exact .inl (by simp)
  | cons c checks ih =>
    by_cases hc : c.PassesAt t
    · rcases ih with hall | ⟨before, c', after, rfl, hbefore, hc'⟩
      · exact .inl (List.forall_mem_cons.2 ⟨hc, hall⟩)
      · exact .inr ⟨c :: before, c', after, rfl, List.forall_mem_cons.2 ⟨hc, hbefore⟩, hc'⟩
    · exact .inr ⟨[], c, checks, rfl, by simp, hc⟩

end Rule

namespace Site

variable {s : Site} {v : Violation} {v? : Option Violation} {e : EvaluationError}

/-- A violation is one of the rule of its site, stands for itself and has a place. -/
lemma Gives.uncounted (h : s.Gives (some v)) :
    v.rule = s.rule ∧ v.count? = none ∧ ∃ place, v.source? = some place := by
  cases h with
  | fails => exact ⟨rfl, rfl, _, rfl⟩

/-- What a site gives is its outcome. -/
lemma Gives.outcome_eq (h : s.Gives v?) : s.outcome = .ok v? := by
  cases h with
  | @passes r target place h =>
    have hpassed := Rule.firstFailure?_append (r := r) h (some place) []
    rw [List.append_nil] at hpassed
    exact hpassed
  | fails hchecks hbefore ho hfails =>
    rw [outcome, Rule.violation?, hchecks, Rule.firstFailure?_append hbefore,
      Rule.firstFailure?_of_fails ho hfails]

/-- What a site aborts with is its outcome. -/
lemma Aborts.outcome_eq (h : s.Aborts e) : s.outcome = .error e := by
  cases h with
  | misfit => rfl
  | check hchecks hbefore hm =>
    rw [outcome, Rule.violation?, hchecks, Rule.firstFailure?_append hbefore,
      Rule.firstFailure?_of_misfit hm]

/-- A site gives something, or it ends the evaluation. -/
lemma gives_or_aborts (s : Site) : (∃ v?, s.Gives v?) ∨ ∃ e, s.Aborts e := by
  cases s with
  | misfit r m => exact .inr ⟨_, .misfit⟩
  | check r target place =>
    rcases Rule.passes_or_exists_first target r.checks with
      hall | ⟨before, c, after, hchecks, hbefore, hc⟩
    · exact .inl ⟨_, .passes hall⟩
    · cases ho : c.condition.observe target with
      | error m => exact .inr ⟨_, .check hchecks hbefore ho⟩
      | ok o =>
        have hfails : o.holds = c.failIf := not_not.1 fun hne => hc ⟨o, ho, hne⟩
        exact .inl ⟨_, .fails hchecks hbefore ho hfails⟩

/-- **A site gives what its first check that does not pass says.** -/
theorem outcome_eq_ok_iff : s.outcome = .ok v? ↔ s.Gives v? := by
  refine ⟨fun h => ?_, Gives.outcome_eq⟩
  rcases s.gives_or_aborts with ⟨w?, hw⟩ | ⟨e, he⟩
  · rw [hw.outcome_eq] at h
    cases h
    exact hw
  · rw [he.outcome_eq] at h
    cases h

/-- A site has an error as its outcome exactly if it aborts with it. -/
theorem outcome_eq_error_iff : s.outcome = .error e ↔ s.Aborts e := by
  refine ⟨fun h => ?_, Aborts.outcome_eq⟩
  rcases s.gives_or_aborts with ⟨v?, hv⟩ | ⟨e', he⟩
  · rw [hv.outcome_eq] at h
    cases h
  · rw [he.outcome_eq] at h
    cases h
    exact he

/-- Checks sites one after the other and joins what they give. -/
def run (ss : List Site) : Except EvaluationError (List Violation) :=
  (ss.mapM outcome).map List.reduceOption

/-- Without sites there are no violations. -/
@[simp] lemma run_nil : run [] = .ok [] := rfl

/-- Sites in a row are gone through in a row. -/
lemma run_append (ss ts : List Site) :
    run (ss ++ ts) = do return (← run ss) ++ (← run ts) := by
  unfold run
  rw [List.mapM_append]
  cases ss.mapM outcome with
  | error e => rfl
  | ok vs =>
    cases ts.mapM outcome with
    | error e => rfl
    | ok us => exact congrArg Except.ok (List.reduceOption_append vs us)

/-- A site by itself has its outcome. -/
lemma run_singleton (s : Site) : run [s] = s.outcome.map Option.toList := by
  unfold run
  rw [List.mapM_cons, List.mapM_nil]
  rcases s.outcome with e | _ | v <;> rfl

/-- A run succeeds exactly if all sites give something, and finds what they give, in their order. -/
theorem run_eq_ok_iff {ss : List Site} {vs : List Violation} :
    run ss = .ok vs ↔ ∃ found, List.Forall₂ Gives ss found ∧ vs = found.reduceOption := by
  have hgives (found : List (Option Violation)) :
      ss.mapM outcome = .ok found ↔ List.Forall₂ Gives ss found := by
    simp only [mapM_eq_ok_iff, outcome_eq_ok_iff]
  simp only [← hgives, run]
  cases ss.mapM outcome <;> simp [Except.map, eq_comm]

/-- A run fails with the error of the first site that aborts. -/
theorem run_eq_error_iff {ss : List Site} :
    run ss = .error e ↔ ∃ before s after, ss = before ++ s :: after ∧
      (∀ b ∈ before, ∃ v?, b.Gives v?) ∧ s.Aborts e := by
  simp only [← outcome_eq_error_iff, ← outcome_eq_ok_iff, ← mapM_eq_error_iff, run]
  cases ss.mapM outcome <;> simp [Except.map]

/-- What a run finds is given by one of the sites. -/
lemma exists_gives_of_mem_run {ss : List Site} {vs : List Violation} (h : run ss = .ok vs)
    (hv : v ∈ vs) : ∃ s ∈ ss, s.Gives (some v) := by
  obtain ⟨found, hfound, rfl⟩ := run_eq_ok_iff.1 h
  have hmem : some v ∈ found := List.reduceOption_mem_iff.1 hv
  exact exists_of_forall₂_of_mem hfound.flip hmem

end Site

/-! ### Sections -/

namespace HttpdConfig

variable {c : HttpdConfig} {current ids : List Nat}

/-- Sections that there are, in the order of their numbers, which is that of their openers. -/
structure IsOrdered (c : HttpdConfig) (ids : List Nat) : Prop where
  pairwise : ids.Pairwise (· < ·)
  exists_get? : ∀ i ∈ ids, ∃ s, c.get? i = some s

/-- A word leads from sections in order to sections in order. -/
lemma isOrdered_follow (h : current.Pairwise (· < ·)) (w : PathWord) :
    c.IsOrdered (c.follow current w) := by
  cases w with
  | inside kind =>
    refine ⟨List.pairwise_lt_range.filter _, fun i hi => ?_⟩
    have hkind := (Bool.and_eq_true_iff.1 (List.mem_filter.1 hi).2).2
    obtain ⟨s, hs, -⟩ := (Option.any_eq_true _ _).1 hkind
    exact ⟨s, hs⟩
  | ofRoot =>
    refine ⟨h.filter _, fun i hi => ?_⟩
    obtain ⟨s, hs, -⟩ := (Option.any_eq_true _ _).1 (List.mem_filter.1 hi).2
    exact ⟨s, hs⟩

/-- What each word of a path keeps, the whole path keeps. -/
lemma followAll_induction {Q : List Nat → Prop} (h : Q current)
    (hstep : ∀ current w, Q current → Q (c.follow current w)) {tokens : List String}
    (hids : c.followAll current tokens = .ok ids) : Q ids := by
  induction tokens generalizing current with
  | nil =>
    cases hids
    exact h
  | cons token tokens ih =>
    rw [followAll] at hids
    cases hw : PathWord.ofText? token with
    | none =>
      rw [hw] at hids
      cases hids
    | some w =>
      rw [hw] at hids
      exact ih (hstep current w h) hids

/-- A path selects nothing, or it leads on from the whole configuration word by word. -/
lemma select_induction {Q : List Nat → Prop} (hnone : Q []) (hfirst : ∀ w, Q (c.follow [0] w))
    (hstep : ∀ current w, Q current → Q (c.follow current w)) {element : String}
    (hids : c.select element = .ok ids) : Q ids := by
  unfold select at hids
  split at hids
  · split at hids
    · cases hids
    · split at hids
      · cases hids
        exact hnone
      · next second _ _ =>
        split at hids
        · cases hids
          exact hnone
        · next hsecond =>
          obtain ⟨w, hw⟩ := Option.ne_none_iff_exists'.1 (mt Option.isNone_iff_eq_none.2 hsecond)
          rw [followAll, hw] at hids
          exact followAll_induction (hfirst w) hstep hids
  · cases hids

/-- **Sections are selected in the order of their numbers.** -/
theorem isOrdered_of_select {element : String} (h : c.select element = .ok ids) :
    c.IsOrdered ids :=
  select_induction ⟨.nil, by simp⟩ (isOrdered_follow (List.pairwise_singleton _ _))
    (fun _ w hcurrent => isOrdered_follow hcurrent.pairwise w) h

end HttpdConfig

/-! ### Sites of rules -/

namespace Rule

variable (r : Rule)

/-- The site of a rule in a farm, which is the element it names. -/
def siteInFarm (f : Farm) : Site :=
  match f.locate r.element with
  | .ok target => .check r target f.label.source
  | .error m => .misfit r m

/-- The sites of a rule in the farms it applies to: all of them together, if there are any, or
each of them in order. -/
def sitesInFarms (config : FarmConfig) : List Site :=
  let farms := config.farms.filter fun f => r.appliesTo f.type
  if r.isMultiTarget then
    match farms with
    | [] => []
    | first :: _ => [.check r (.farms farms) first.label.source]
  else farms.map r.siteInFarm

/-- The sites of a rule in the sections it selects. -/
def sitesInSections (config : HttpdConfig) : List Site :=
  match config.select r.element with
  | .ok ids =>
    ids.filterMap fun id => (config.get? id).map fun s => .check r (.section config id) s.source
  | .error m => [.misfit r m]

/-- The sites of a rule in a configuration. -/
def sites (config : AnyConfig) : List Site :=
  match r.dialect? with
  | none => [.misfit r (.wrongRoot config.dialect.rootToken)]
  | some d =>
    if d = config.dialect then
      match config with
      | .farms c => r.sitesInFarms c
      | .sections c => r.sitesInSections c
    else []

variable {r}

/-- What is collected is what the sites give, if that holds of each member. -/
lemma collect_eq_run {α : Type} {f : α → Except EvaluationError (List Violation)}
    {g : α → List Site} {as : List α} (h : ∀ a ∈ as, f a = Site.run (g a)) :
    collect f as = Site.run (as.flatMap g) := by
  induction as with
  | nil => rfl
  | cons a as ih =>
    obtain ⟨ha, has⟩ := List.forall_mem_cons.1 h
    rw [collect, List.flatMap_cons, Site.run_append, ha, ih has]

/-- The violations in a farm are found by a run over its one site. -/
lemma violationsInFarm_eq_run (f : Farm) :
    r.violationsInFarm f = Site.run [r.siteInFarm f] := by
  unfold violationsInFarm siteInFarm
  rw [Site.run_singleton]
  cases f.locate r.element with
  | error m => rfl
  | ok target =>
    show (do return (← r.violation? target (some f.label.source)).toList) = _
    dsimp only [Site.outcome]
    cases r.violation? target (some f.label.source) <;> rfl

/-- The violations in farms are found by a run over the sites. -/
lemma violationsInFarms_eq_run (config : FarmConfig) :
    r.violationsInFarms config = Site.run (r.sitesInFarms config) := by
  unfold violationsInFarms sitesInFarms
  cases config.farms.filter fun f => r.appliesTo f.type with
  | nil => cases r.isMultiTarget <;> rfl
  | cons first rest =>
    dsimp only
    split
    · rw [Site.run_singleton, Site.outcome]
    · rw [collect_eq_run fun f _ => violationsInFarm_eq_run f, List.map_eq_flatMap]

/-- The violations in sections are found by a run over the sites. -/
lemma violationsInSections_eq_run (config : HttpdConfig) :
    r.violationsInSections config = Site.run (r.sitesInSections config) := by
  unfold violationsInSections sitesInSections
  cases hselect : config.select r.element with
  | error m => rfl
  | ok ids =>
    dsimp only
    rw [List.filterMap_eq_flatMap_toList]
    refine (collect_eq_run fun id hid => ?_ : collect _ ids = _)
    obtain ⟨s, hs⟩ := (HttpdConfig.isOrdered_of_select hselect).exists_get? id hid
    rw [hs, Option.map_some, Option.map_some, Option.toList_some, Site.run_singleton, Site.outcome]
    cases r.violation? (.section config id) (some s.source) <;> rfl

/-- The site in a farm is one of the rule. -/
lemma rule_siteInFarm (f : Farm) : (r.siteInFarm f).rule = r := by
  unfold siteInFarm
  cases f.locate r.element <;> rfl

/-- The sites in farms are sites of the rule. -/
lemma rule_of_mem_sitesInFarms {config : FarmConfig} {s : Site} (h : s ∈ r.sitesInFarms config) :
    s.rule = r := by
  unfold sitesInFarms at h
  dsimp only at h
  split at h
  · split at h
    · cases h
    · rw [List.mem_singleton.1 h]
      rfl
  · obtain ⟨f, -, rfl⟩ := List.mem_map.1 h
    exact rule_siteInFarm f

/-- The sites in sections are sites of the rule. -/
lemma rule_of_mem_sitesInSections {config : HttpdConfig} {s : Site}
    (h : s ∈ r.sitesInSections config) : s.rule = r := by
  unfold sitesInSections at h
  split at h
  · obtain ⟨id, -, hid⟩ := List.mem_filterMap.1 h
    obtain ⟨found, -, rfl⟩ := Option.map_eq_some_iff.1 hid
    rfl
  · rw [List.mem_singleton.1 h]
    rfl

/-- A site where something can be checked is one of a rule of the dialect. -/
lemma rule_of_mem_sites {config : AnyConfig} {s : Site} (h : s ∈ r.sites config) :
    s.rule = r ∧ ((∃ v?, s.Gives v?) → r.dialect? = some config.dialect) := by
  unfold sites at h
  split at h
  · rw [List.mem_singleton.1 h]
    refine ⟨rfl, ?_⟩
    rintro ⟨v?, hv⟩
    cases hv
  · next d hd =>
    split at h
    · next heq =>
      refine ⟨?_, fun _ => heq ▸ hd⟩
      cases config with
      | farms c => exact rule_of_mem_sitesInFarms h
      | sections c => exact rule_of_mem_sitesInSections h
    · cases h

/-- A rule is evaluated site by site. -/
lemma evaluate_eq_run (config : AnyConfig) : r.evaluate config = Site.run (r.sites config) := by
  unfold evaluate sites
  cases r.dialect? with
  | none => rfl
  | some d =>
    by_cases hd : d = config.dialect
    · simp only [hd]
      cases config with
      | farms c => exact violationsInFarms_eq_run c
      | sections c => exact violationsInSections_eq_run c
    · simp [hd]

end Rule

namespace RuleList

/-- The sites of the enabled rules in a configuration. -/
def sites (l : RuleList) (config : AnyConfig) : List Site :=
  l.enabledRules.flatMap fun r => r.sites config

/-- **Rules are evaluated site by site.** -/
theorem evaluate_eq_run (l : RuleList) (config : AnyConfig) :
    l.evaluate config = Site.run (l.sites config) :=
  Rule.collect_eq_run fun _ _ => Rule.evaluate_eq_run config

/-- A violation is one of an enabled rule of the dialect, stands for itself and has a place. -/
lemma forall_mem_evaluate {l : RuleList} {config : AnyConfig} {vs : List Violation}
    (h : l.evaluate config = .ok vs) {v : Violation} (hv : v ∈ vs) :
    v.count? = none ∧ v.rule ∈ l.enabledRules ∧ v.rule.dialect? = some config.dialect ∧
      ∃ place, v.source? = some place := by
  rw [evaluate_eq_run] at h
  obtain ⟨s, hs, hgives⟩ := Site.exists_gives_of_mem_run h hv
  obtain ⟨r, hr, hs⟩ := List.mem_flatMap.1 hs
  obtain ⟨hrule, hdialect⟩ := Rule.rule_of_mem_sites hs
  obtain ⟨hv, hcount, hplace⟩ := hgives.uncounted
  rw [hv, hrule]
  exact ⟨hcount, hr, hdialect ⟨_, hgives⟩, hplace⟩

end RuleList

end ProxyLint
