import ProxyLint.Proofs.Evaluation.Places
import ProxyLint.Proofs.Rule.Accumulation

set_option relaxedAutoImplicit false
set_option autoImplicit false

/-!
# What an evaluation comes to

The enabled rules of the dialect are checked at their sites, in order, until a rule does not fit.
So an evaluation does not depend on other rules, and rules that follow each other in a list can be
evaluated one list after the other.

## Main definitions

* `ProxyLint.Rule.concerns` — a rule that matters for configurations of a dialect.
* `ProxyLint.Include.Resolver.Yields` — lines that something is resolved to.

## Main results

* `ProxyLint.RuleList.evaluate_congr` — only rules that matter change an evaluation.
* `ProxyLint.RuleList.evaluate_of_rules_eq_append` — lists are evaluated one after the other.
* `ProxyLint.RuleList.evaluate_site_by_site` — the evaluation of a list of rules.
-/

namespace ProxyLint

namespace Include.Resolver

/-- Lines are what an entry file, or a text, is resolved to. -/
def Yields (r : Resolver) (t : FileTree) (lines : List Line) : Prop :=
  (∃ entry, (r.resolveFile t entry).lines = .ok lines) ∨
    ∃ text file, (r.resolveText t text file).lines = .ok lines

/-- Lines that are read for a configuration come from a known file. -/
lemma Yields.isKnown {r : Resolver} {t : FileTree} {lines : List Line} (h : r.Yields t lines) :
    ∀ l ∈ lines, l.source.IsKnown := by
  intro l hl
  rcases h with ⟨entry, hlines⟩ | ⟨text, file, hlines⟩
  · obtain ⟨text, -, heq⟩ := exists_resolveText_of_lines hlines
    rw [heq] at hlines
    exact ((locates_resolveText hlines).1 l hl).1
  · exact ((locates_resolveText hlines).1 l hl).1

end Include.Resolver

/-- A rule matters for configurations of a dialect if it is enabled and not of the other
dialect. -/
def Rule.concerns (d : Dialect) (r : Rule) : Bool :=
  r.enabled && r.dialect?.all fun d' => d' == d

/-- A rule that is about the other dialect has no sites. -/
lemma Rule.sites_of_not_concerns {r : Rule} {config : AnyConfig} (henabled : r.enabled = true)
    (h : r.concerns config.dialect = false) : r.sites config = [] := by
  unfold concerns at h
  unfold sites
  cases hd : r.dialect? with
  | none => simp [henabled, hd] at h
  | some d =>
    have hne : d ≠ config.dialect := by simpa [henabled, hd] using h
    exact if_neg hne

namespace RuleList

variable {l l' : RuleList} {config : AnyConfig} {vs : List Violation}

/-! ### Rules that matter -/

/-- Only the rules that concern a configuration have sites in it. -/
lemma sites_eq_flatMap_concerns (l : RuleList) (config : AnyConfig) :
    l.sites config =
      (l.rules.filter (Rule.concerns config.dialect)).flatMap fun r => r.sites config := by
  unfold sites enabledRules
  induction l.rules with
  | nil => rfl
  | cons r rules ih =>
    by_cases henabled : r.enabled = true
    · rw [List.filter_cons_of_pos henabled, List.flatMap_cons, ih]
      cases hconcerns : r.concerns config.dialect with
      | true => rw [List.filter_cons_of_pos hconcerns, List.flatMap_cons]
      | false =>
        rw [List.filter_cons_of_neg (by simp [hconcerns]),
          Rule.sites_of_not_concerns henabled hconcerns, List.nil_append]
    · have hconcerns : ¬ r.concerns config.dialect = true := by simp [Rule.concerns, henabled]
      rw [List.filter_cons_of_neg henabled, List.filter_cons_of_neg hconcerns, ih]

/-- **Only rules that matter change an evaluation**: disabled rules and rules of the other dialect
may be added or left out anywhere. -/
theorem evaluate_congr (h : l.rules.filter (Rule.concerns config.dialect) =
    l'.rules.filter (Rule.concerns config.dialect)) : l.evaluate config = l'.evaluate config := by
  rw [evaluate_eq_run, evaluate_eq_run, sites_eq_flatMap_concerns, h, ← sites_eq_flatMap_concerns]

/-! ### Lists one after the other -/

/-- **Rules are evaluated one list after the other** if their list is made up of two. -/
theorem evaluate_of_rules_eq_append {joint : RuleList} (h : joint.rules = l.rules ++ l'.rules) :
    joint.evaluate config =
      (do return (← l.evaluate config) ++ (← l'.evaluate config)) := by
  have hsites : joint.sites config = l.sites config ++ l'.sites config := by
    unfold sites enabledRules
    rw [h, List.filter_append, List.flatMap_append]
  rw [evaluate_eq_run, hsites, Site.run_append, evaluate_eq_run, evaluate_eq_run]

/-- Two lists that hold each rule once, and none in common, hold each rule once together. -/
lemma nodup_map_id_append (honce : l.HoldsOnce) (honce' : l'.HoldsOnce)
    (hdisjoint : l.ids.Disjoint l'.ids) : ((l.rules ++ l'.rules).map Rule.id).Nodup := by
  rw [List.map_append]
  exact honce.append honce' hdisjoint

/-- Rules of two lists without a common id are a list. -/
lemma rules_ofRules_append (honce : l.HoldsOnce) (honce' : l'.HoldsOnce)
    (hdisjoint : l.ids.Disjoint l'.ids) (mode : MergeMode) :
    (ofRules mode (l.rules ++ l'.rules)).rules = l.rules ++ l'.rules :=
  (foldl_put_nil _).trans (settle_of_nodup (nodup_map_id_append honce honce' hdisjoint))

/-- A list that extends another one, with other ids, is added to it. -/
lemma rules_merge_of_disjoint (honce : l.HoldsOnce) (honce' : l'.HoldsOnce)
    (hdisjoint : l.ids.Disjoint l'.ids) (hmode : l'.mode = .extend) :
    (l.merge l').rules = l.rules ++ l'.rules := by
  unfold merge
  rw [hmode]
  rcases hrules : l.rules with _ | ⟨first, rest⟩
  · rfl
  · have hsettled := foldl_put_settle l.rules l'.rules
    rw [settle_of_nodup honce, settle_of_nodup (nodup_map_id_append honce honce' hdisjoint),
      hrules] at hsettled
    exact hsettled

/-! ### Evaluation -/

/-- A violation in a configuration that has been read from lines is at one of them. -/
lemma exists_line_of_mem_evaluate {lines : List Line} (hread : config.IsReadFrom lines)
    (h : l.evaluate config = .ok vs) {v : Violation} (hv : v ∈ vs) :
    ∃ line ∈ lines, v.source? = some line.source := by
  obtain ⟨-, -, -, place, hplace⟩ := forall_mem_evaluate h hv
  rw [evaluate_eq_run] at h
  obtain ⟨s, hs, hgives⟩ := Site.exists_gives_of_mem_run h hv
  obtain ⟨r, -, hs⟩ := List.mem_flatMap.1 hs
  have hstands : s.StandsAt fun place => place ∈ lines.map Line.source :=
    Rule.standsAt_of_isReadFrom hread (fun l hl => List.mem_map_of_mem hl) hs
  obtain ⟨line, hline, heq⟩ := List.mem_map.1 (hgives.standsAt hstands hplace)
  exact ⟨line, hline, by rw [heq, hplace]⟩

/-- **Rules are evaluated site by site.** An evaluation goes through the sites of the enabled
rules of the dialect, in order. If no site ends it, it has for each site the violation that the
site gives, if any; otherwise it has the error of the first site that ends it. A violation stands
for itself, is one of an enabled rule of the dialect and has a place; in a configuration that has
been read from lines that is the place of a line, which is known if the lines have been resolved.
Sections are selected in the order of their openers. Two lists without a common id, put together
or merged, are evaluated one after the other; and rules that are disabled or of the other dialect
make no difference.

**Proof sketch.** A rule is evaluated as its sites are run (`Rule.evaluate_eq_run`), and the
outcome of a site is decided by the first check that does not pass (`Site.outcome_eq_ok_iff`).
Running sites is a traversal, which distributes over concatenation (`Site.run_append`). A check
observes nothing but what is written at its target (`Condition.source_of_observe`), and the
targets are at the lines that have been read (`Rule.standsAt_of_isReadFrom`). -/
theorem evaluate_site_by_site (l : RuleList) (config : AnyConfig) :
    (∀ vs, l.evaluate config = .ok vs ↔
      ∃ found, List.Forall₂ Site.Gives (l.sites config) found ∧ vs = found.reduceOption) ∧
    (∀ e, l.evaluate config = .error e ↔ ∃ before s after,
      l.sites config = before ++ s :: after ∧ (∀ b ∈ before, ∃ v?, b.Gives v?) ∧ s.Aborts e) ∧
    (∀ vs, l.evaluate config = .ok vs → ∀ v ∈ vs,
      v.count? = none ∧ v.rule ∈ l.enabledRules ∧ v.rule.dialect? = some config.dialect ∧
      (∃ place, v.source? = some place) ∧
      ∀ lines, config.IsReadFrom lines → ∃ line ∈ lines, v.source? = some line.source ∧
        ∀ (r : Include.Resolver) t, r.Yields t lines → line.source.IsKnown) ∧
    (∀ c element ids, config = .sections c → c.select element = .ok ids → c.IsOrdered ids) ∧
    (∀ l' joint : RuleList, l.HoldsOnce → l'.HoldsOnce → l.ids.Disjoint l'.ids →
      ((∃ mode, joint = ofRules mode (l.rules ++ l'.rules)) ∨
        l'.mode = .extend ∧ joint = l.merge l') →
      joint.evaluate config = (do return (← l.evaluate config) ++ (← l'.evaluate config))) ∧
    ∀ l' : RuleList, l.rules.filter (Rule.concerns config.dialect) =
      l'.rules.filter (Rule.concerns config.dialect) → l.evaluate config = l'.evaluate config := by
  refine ⟨fun vs => ?_, fun e => ?_, fun vs hvs v hv => ?_, ?_, ?_, fun l' => evaluate_congr⟩
  · rw [evaluate_eq_run]
    exact Site.run_eq_ok_iff
  · rw [evaluate_eq_run]
    exact Site.run_eq_error_iff
  · obtain ⟨hcount, hrule, hdialect, hplace⟩ := forall_mem_evaluate hvs hv
    refine ⟨hcount, hrule, hdialect, hplace, fun lines hread => ?_⟩
    obtain ⟨line, hline, hsource⟩ := exists_line_of_mem_evaluate hread hvs hv
    exact ⟨line, hline, hsource, fun r t hyields => hyields.isKnown line hline⟩
  · rintro c element ids - hids
    exact HttpdConfig.isOrdered_of_select hids
  · rintro l' joint honce honce' hdisjoint (⟨mode, rfl⟩ | ⟨hmode, rfl⟩)
    · exact evaluate_of_rules_eq_append (rules_ofRules_append honce honce' hdisjoint mode)
    · exact evaluate_of_rules_eq_append (rules_merge_of_disjoint honce honce' hdisjoint hmode)

/-- A farm that waits for 5 seconds. -/
def delayLines : List Line :=
  [⟨"/farms \x7b", .ofLine "d.any" 1 none⟩, ⟨"/publish \x7b /retryDelay", .ofLine "d.any" 2 none⟩,
    ⟨"\"5\" \x7d \x7d", .ofLine "d.any" 3 none⟩]

/-- A rule by which a farm waits for a second at most. -/
def delayList : RuleList :=
  ⟨.extend, [{ id := "delay", element := "farm.retryDelay"
               checks := [{ condition := .isPresent }, { condition := .integerLessOrEqual 1 }] }]⟩

/-- A rule about the web server. -/
def hostList : RuleList :=
  ⟨.extend, [{ id := "host", element := "httpd.vhost", checks := [{ condition := .isPresent }] }]⟩

/-- The farm waits too long, which its second check finds on the line of the value. With the rule
about the web server merged into the list the same is found. -/
theorem evaluate_delayList : ∃ v place,
    delayList.evaluate (.farms (FarmConfig.ofLines delayLines).value) = .ok [v] ∧
    v.context = "farm.retryDelay: expected value to be at most 1; found 5" ∧
    v.count? = none ∧ v.source? = some place ∧ place.IsKnown ∧
    (delayList.merge hostList).evaluate (.farms (FarmConfig.ofLines delayLines).value) =
      .ok [v] := by
  have hrun : delayList.evaluate (.farms (FarmConfig.ofLines delayLines).value) =
      .ok [{ rule := delayList.rules.head (List.cons_ne_nil _ _)
             context := "farm.retryDelay: expected value to be at most 1; found 5"
             source? := some (.ofLine "d.any" 3 none) }] := by decide +kernel
  have hhost : hostList.evaluate (.farms (FarmConfig.ofLines delayLines).value) = .ok [] := by
    decide +kernel
  have hyields : Include.Resolver.Yields { dialect := .any, root := "/repo" } ⟨.dir [], []⟩
      delayLines :=
    .inr ⟨"/farms \x7b\n/publish \x7b /retryDelay\n\"5\" \x7d \x7d\n", "d.any", by decide +kernel⟩
  obtain ⟨-, -, hall, -, hjoint, -⟩ :=
    evaluate_site_by_site delayList (.farms (FarmConfig.ofLines delayLines).value)
  obtain ⟨hcount, -, -, -, hlines⟩ := hall _ hrun _ (List.mem_singleton_self _)
  obtain ⟨line, -, hsource, hknown⟩ := hlines delayLines .farms
  refine ⟨_, line.source, hrun, rfl, hcount, hsource, hknown _ _ hyields, ?_⟩
  rw [hjoint hostList _ (by decide) (by decide)
    (List.disjoint_left.2 (by decide)) (.inr ⟨rfl, rfl⟩), hrun, hhost]
  rfl

end RuleList

end ProxyLint
