import ProxyLint.Command
import ProxyLint.Proofs.Evaluation.Sites
import ProxyLint.Proofs.Report.MachineWords

set_option relaxedAutoImplicit false
set_option autoImplicit false

/-!
# Verbosity and the result of an analysis

How much repetition a report keeps is decided after everything has been found. It
changes neither how many violations of each severity the report stands for nor, with
it, the exit status of a check, as long as the rules leave the ids of the faults
alone: a rule that bears the id of a fault, but has another severity, is grouped with
the fault, and the group has the severity of what was found first.

## Main definitions

* `ProxyLint.RuleList.SparesFaults` — no rule that is evaluated gives the id of a fault
  another severity.
* `ProxyLint.Analysis.Plan.survey` — what an analysis finds before its report is
  reduced.

## Main results

* `ProxyLint.Analysis.Plan.oneSeverity_survey` — a rule id has one severity in all that
  an analysis finds.
* `ProxyLint.Analysis.Plan.reduceWords_survey` — the report of an analysis has exact sums.
* `ProxyLint.Analysis.counts_and_exit_of_verbosity` — the counts of a report and the
  exit status of a check do not depend on the verbosity.
* `ProxyLint.Analysis.counts_and_exit_of_clash` — they do if a rule bears the id of a
  fault.
-/

namespace ProxyLint

/-! ### Ids of faults -/

/-- The list of the built-in faults is complete. -/
lemma Fault.mem_all (f : Fault) : f ∈ Fault.all := by
  cases f <;> decide

/-- Each fault has an id of its own. -/
lemma Fault.id_injective {f g : Fault} (h : f.id = g.id) : f = g := by
  have hall : ∀ f ∈ Fault.all, ∀ g ∈ Fault.all, f.id = g.id → f = g := by decide
  exact hall f f.mem_all g g.mem_all h

/-- No rule that is evaluated gives the id of a fault another severity. -/
def RuleList.SparesFaults (l : RuleList) : Prop :=
  ∀ r ∈ l.enabledRules, ∀ f : Fault, r.id = f.id → r.severity = f.severity

instance (l : RuleList) : Decidable l.SparesFaults :=
  decidable_of_iff
    (∀ r ∈ l.enabledRules, ∀ f ∈ Fault.all, r.id = f.id → r.severity = f.severity)
    ⟨fun h r hr f => h r hr f f.mem_all, fun h r hr f _ => h r hr f⟩

/-- The violation of a fault, or of a rule that is evaluated. -/
def RuleList.AccountsFor (l : RuleList) (v : Violation) : Prop :=
  (∃ f : Fault, v.rule = f.rule) ∨ v.rule ∈ l.enabledRules

/-- Faults and the rules of a list that spares them have one severity for each id. -/
lemma RuleList.SparesFaults.oneSeverity {l : RuleList} (hspares : l.SparesFaults)
    (honce : l.HoldsOnce) {vs : List Violation} (h : ∀ v ∈ vs, l.AccountsFor v) :
    Report.OneSeverity vs := by
  intro v hv w hw hid
  rcases h v hv with ⟨f, hf⟩ | hr <;> rcases h w hw with ⟨g, hg⟩ | hr'
  · rw [hf, hg] at hid ⊢
    rw [Fault.id_injective hid]
  · rw [hf] at hid ⊢
    exact (hspares _ hr' f hid.symm).symm
  · rw [hg] at hid ⊢
    exact hspares _ hr g hid
  · rw [honce.eq_of_id_eq (List.mem_of_mem_filter hr) (List.mem_of_mem_filter hr') hid]

/-! ### Before the report is reduced -/

namespace Analysis

namespace Plan

variable {p : Plan} {t : FileTree}

/-- What an analysis finds before its report is reduced: the farms, the sections and
all violations in order. -/
def survey (p : Plan) (t : FileTree) :
    Except Error (Option (Noted FarmConfig) × Option (Noted HttpdConfig) × List Violation) := do
  let (farms?, first) ← p.examine t .any p.farmFile? FarmConfig.ofOutcome .farms
  let (sections?, second) ← p.examine t .httpd p.httpdFile? HttpdConfig.ofOutcome .sections
  return (farms?, sections?, first ++ second)

/-- An analysis reduces what was found, and does nothing else after that. -/
lemma run_eq_map_survey (p : Plan) (t : FileTree) :
    p.run t = (p.survey t).map fun (farms?, sections?, vs) =>
      { farms?, sections?, violations := Report.reduce p.verbosity vs,
        verbosity := p.verbosity } := by
  unfold run survey
  cases p.examine t .any p.farmFile? FarmConfig.ofOutcome .farms with
  | error e => rfl
  | ok found =>
    simp only [bind, Except.bind]
    cases p.examine t .httpd p.httpdFile? HttpdConfig.ofOutcome .sections <;> rfl

/-- What is found does not depend on the verbosity. -/
lemma survey_withVerbosity (p : Plan) (v : Verbosity) (t : FileTree) :
    ({ p with verbosity := v } : Plan).survey t = p.survey t := rfl

/-- What is found of a dialect is accounted for by the rules, and single. -/
lemma of_mem_examine {α : Type} {dialect : Dialect} {file? : Option String}
    {decode : Include.Outcome → Except Include.Failure (Noted α)} {toConfig : α → AnyConfig}
    {found : Option (Noted α) × List Violation}
    (h : p.examine t dialect file? decode toConfig = .ok found) :
    ∀ v ∈ found.2, p.rules.AccountsFor v ∧ v.count? = none := by
  unfold examine at h
  split at h
  · cases h
    exact fun v hv => by cases hv
  · split at h
    · cases h
    · next c _ =>
      unfold report at h
      cases heval : p.rules.evaluate (toConfig c.value) with
      | error e => rw [heval] at h; cases h
      | ok vs =>
        rw [heval] at h
        cases h
        intro v hv
        rcases List.mem_append.1 hv with hv | hv
        · obtain ⟨f, -, rfl⟩ := List.mem_map.1 hv
          exact ⟨.inl ⟨f.fault, rfl⟩, rfl⟩
        · obtain ⟨hcount, hrule, -⟩ := RuleList.forall_mem_evaluate heval hv
          exact ⟨.inr hrule, hcount⟩

/-- What an analysis finds is accounted for by the rules, and single. -/
lemma of_mem_survey {farms? : Option (Noted FarmConfig)} {sections? : Option (Noted HttpdConfig)}
    {vs : List Violation} (h : p.survey t = .ok (farms?, sections?, vs)) :
    ∀ v ∈ vs, p.rules.AccountsFor v ∧ v.count? = none := by
  obtain ⟨found, hfound, h⟩ := exists_ok_of_bind h
  obtain ⟨found', hfound', h⟩ := exists_ok_of_bind h
  cases h
  intro v hv
  rcases List.mem_append.1 hv with hv | hv
  · exact of_mem_examine hfound v hv
  · exact of_mem_examine hfound' v hv

/-- **A rule id has one severity in all that an analysis finds**, if the rules spare the
faults. -/
theorem oneSeverity_survey (honce : p.rules.HoldsOnce) (hspares : p.rules.SparesFaults)
    {farms? : Option (Noted FarmConfig)} {sections? : Option (Noted HttpdConfig)}
    {vs : List Violation} (h : p.survey t = .ok (farms?, sections?, vs)) :
    Report.OneSeverity vs :=
  hspares.oneSeverity honce fun v hv => (of_mem_survey h v hv).1

/-- **The report of an analysis has exact sums**: with sums of machine words it is the same, as
long as there is a machine word for the number of the violations that are found. -/
theorem reduceWords_survey {farms? : Option (Noted FarmConfig)}
    {sections? : Option (Noted HttpdConfig)} {vs : List Violation}
    (h : p.survey t = .ok (farms?, sections?, vs)) (hlength : vs.length < Report.wordCount)
    (o : Report.Overflow) :
    Report.reduceWords o p.verbosity vs = some (Report.reduce p.verbosity vs) :=
  Report.reduceWords_of_single o p.verbosity (fun v hv => (of_mem_survey h v hv).2) hlength

/-- With another verbosity an analysis has a result as well, and its report stands for
as many violations of each severity. -/
lemma exists_run_withVerbosity (honce : p.rules.HoldsOnce) (hspares : p.rules.SparesFaults)
    {a : Analysis} (hrun : p.run t = .ok a) (v : Verbosity) :
    ∃ a', ({ p with verbosity := v } : Plan).run t = .ok a' ∧
      Report.SameCounts a'.violations a.violations := by
  rw [run_eq_map_survey] at hrun
  cases hsurvey : p.survey t with
  | error e => rw [hsurvey] at hrun; cases hrun
  | ok found =>
    obtain ⟨farms?, sections?, vs⟩ := found
    rw [hsurvey] at hrun
    cases hrun
    have hone := oneSeverity_survey honce hspares hsurvey
    refine ⟨_, by rw [run_eq_map_survey, survey_withVerbosity, hsurvey]; rfl, fun s => ?_⟩
    rw [Report.sameCounts_reduce v hone s]
    exact (Report.sameCounts_reduce p.verbosity hone s).symm

/-- An analysis that has no result has none with another verbosity. -/
lemma run_withVerbosity_eq_error {e : Error} (hrun : p.run t = .error e) (v : Verbosity) :
    ({ p with verbosity := v } : Plan).run t = .error e := by
  rw [run_eq_map_survey] at hrun ⊢
  rw [survey_withVerbosity]
  cases hsurvey : p.survey t with
  | error e' => rw [hsurvey] at hrun; cases hrun; rfl
  | ok found => rw [hsurvey] at hrun; cases hrun

end Plan

/-- The verbosity that is asked for is a setting of the plan and nothing else. -/
lemma Request.plan_withVerbosity (r : Request) (v? : Option Verbosity) (t : FileTree) :
    ({ r with verbosity? := v? } : Request).plan t = (r.plan t).map fun p =>
      { p with verbosity := v?.getD r.config.analyzer.verbosity } := by
  simp only [Request.plan]
  split
  · rfl
  · split
    · rfl
    · rfl

/-- The rules of a plan are those of the request. -/
lemma Request.rules_of_plan {r : Request} {t : FileTree} {p : Plan} (h : r.plan t = .ok p) :
    p.rules = r.rules := by
  simp only [Request.plan] at h
  split at h
  · cases h
  · split at h
    · cases h
    · cases h
      rfl

/-! ### The exit status of a check -/

/-- The exit status that a result leads to. -/
def exitStatus (failOn : Severity) : Except Error Analysis → Nat
  | .error _ => 2
  | .ok a => if Report.hasAtLeast a.violations failOn then 1 else 0

/-- The exit status of a request does not depend on the verbosity it asks for. -/
lemma exitStatus_withVerbosity {r : Request} {t : FileTree} (honce : r.rules.HoldsOnce)
    (hspares : r.rules.SparesFaults) (failOn : Severity) (v? : Option Verbosity) :
    exitStatus failOn (({ r with verbosity? := v? } : Request).run t) =
      exitStatus failOn (r.run t) := by
  unfold Request.run
  rw [Request.plan_withVerbosity]
  cases hplan : r.plan t with
  | error e => rfl
  | ok p =>
    rw [← Request.rules_of_plan hplan] at honce hspares
    show exitStatus failOn (Plan.run _ t) = exitStatus failOn (p.run t)
    cases hrun : p.run t with
    | error e => rw [Plan.run_withVerbosity_eq_error hrun]
    | ok a =>
      obtain ⟨a', hrun', hcounts⟩ := Plan.exists_run_withVerbosity honce hspares hrun
        (v?.getD r.config.analyzer.verbosity)
      rw [hrun', exitStatus, exitStatus, hcounts.hasAtLeast_eq]

end Analysis

namespace Command

/-- What is asked for when a repository is checked. -/
def checkRequest (t : FileTree) (config : Config) (s : CheckSettings) : Analysis.Request where
  config := config
  rules := s.preset.rules.configured t (s.rulesFolder?.or config.analyzer.rulesFolder) config
  repo? := s.path?
  farmFile? := s.dispatcher?
  httpdFile? := s.httpd?
  serverRoot? := s.serverRoot?
  verbosity? := s.verbosity?

/-- The exit code of a check: 1 if there is no configuration, 2 if the analysis fails, and otherwise
what the findings and the threshold come to. -/
lemma exit_checkEffect (t : FileTree) (env : Environment) (config? : Option String)
    (s : CheckSettings) :
    (checkEffect t env config? s).exit =
      match ConfigFile.load t env (s.path?.getD ".") config? with
      | .error _ => 1
      | .ok config => Analysis.exitStatus s.failOn ((checkRequest t config s).run t) := by
  unfold checkEffect
  cases ConfigFile.load t env (s.path?.getD ".") config? with
  | error e => rfl
  | ok config =>
    show Effect.exit (match (checkRequest t config s).run t with | .error _ => _ | .ok a => _) =
      Analysis.exitStatus s.failOn ((checkRequest t config s).run t)
    cases (checkRequest t config s).run t <;> rfl

end Command

namespace Analysis

/-- **Verbosity only changes grouping.** Suppose that the rules of an analysis hold each id
once and spare the faults. If the analysis has a result, then it has one with every
verbosity; the reports have the same summary, and they reach the same severities. So
the exit status of a check, whatever severity makes it fail, does not depend on the
verbosity that is asked for, if the rules that are configured spare the faults.

**Proof sketch.** What is found does not depend on the verbosity
(`Plan.survey_withVerbosity`), and a rule id has one severity in it
(`Plan.oneSeverity_survey`), so that each group has the severity of all its members
(`Report.sameCounts_reduce`). The rules that a check configures hold each id once
(`RuleList.holdsOnce_configured`). -/
theorem counts_and_exit_of_verbosity (t : FileTree) :
    (∀ (p : Plan) (a : Analysis), p.rules.HoldsOnce → p.rules.SparesFaults →
      p.run t = .ok a → ∀ v : Verbosity, ∃ a',
        ({ p with verbosity := v } : Plan).run t = .ok a' ∧
        Report.summary a'.violations = Report.summary a.violations ∧
        ∀ s, Report.hasAtLeast a'.violations s = Report.hasAtLeast a.violations s) ∧
    (∀ (env : Environment) (config? : Option String) (s : CheckSettings),
      (∀ config, ConfigFile.load t env (s.path?.getD ".") config? = .ok config →
        (Command.checkRequest t config s).rules.SparesFaults) →
      ∀ v? : Option Verbosity,
        (Command.checkEffect t env config? { s with verbosity? := v? }).exit =
          (Command.checkEffect t env config? s).exit) := by
  refine ⟨fun p a honce hspares hrun v => ?_, fun env config? s hspares v? => ?_⟩
  · obtain ⟨a', hrun', hcounts⟩ := Plan.exists_run_withVerbosity honce hspares hrun v
    exact ⟨a', hrun', hcounts.summary_eq, hcounts.hasAtLeast_eq⟩
  · rw [Command.exit_checkEffect, Command.exit_checkEffect]
    dsimp only
    cases hload : ConfigFile.load t env (s.path?.getD ".") config? with
    | error e => rfl
    | ok config =>
      have honce : (Command.checkRequest t config s).rules.HoldsOnce :=
        RuleList.holdsOnce_configured _ t _ config
      exact exitStatus_withVerbosity honce (hspares config hload) s.failOn v?

/-- A repository with the fault of an unknown label, twice, and without a cache. Next to
it is a folder with a rule that asks for a cache, but bears the id of that fault. -/
def strayTree : FileTree :=
  ⟨.dir [
    ("repo", .dir [
      ("d.any", .file (some "/farms \x7b /site \x7b\n/bogus 1\n/bogus 2\n\x7d \x7d"))]),
    ("rules", .dir [
      ("cache.json", .file (some ("\x7b\"mergeMode\":\"REPLACE\",\"rules\":[\x7b" ++
        "\"id\":\"any-unknown-label\",\"element\":\"farm.cache\",\"severity\":\"BLOCKER\"," ++
        "\"checks\":[\x7b\"condition\":\"IS_PRESENT\"\x7d]\x7d]\x7d")))])], []⟩

/-- An analysis of it with one rule, which asks for a cache and bears the given id. -/
def strayPlan (id : String) : Plan where
  repo := "/repo"
  farmFile? := some "d.any"
  httpdFile? := none
  serverRoot? := none
  limits := {}
  verbosity := .full
  rules := ⟨.extend, [{ id, element := "farm.cache", severity := .blocker
                        checks := [{ condition := .isPresent }] }]⟩

/-- A check of it that fails from some severity on. -/
def straySettings (failOn : Severity) (rulesFolder? : Option String) : CheckSettings :=
  { path? := some "/repo", dispatcher? := some "d.any", preset := .minimal, failOn, rulesFolder? }

/-- Under an id of its own the rule is counted apart from the faults, whatever the
verbosity; and a check with the rules of a preset fails because of the faults. -/
theorem counts_and_exit_of_strayTree :
    (∀ v : Verbosity, ∃ a',
      ({ strayPlan "cache" with verbosity := v } : Plan).run strayTree = .ok a' ∧
      Report.summary a'.violations = [(.major, 2), (.blocker, 1)] ∧
      Report.hasAtLeast a'.violations .blocker = true) ∧
    ∀ v? : Option Verbosity,
      (Command.checkEffect strayTree {} none
        { straySettings .major none with verbosity? := v? }).exit = 1 := by
  constructor
  · intro v
    have hfull : ((strayPlan "cache").run strayTree).map
        (fun a => (Report.summary a.violations, Report.hasAtLeast a.violations .blocker)) =
        .ok ([(.major, 2), (.blocker, 1)], true) := by
      decide +kernel
    cases hrun : (strayPlan "cache").run strayTree with
    | error e => rw [hrun] at hfull; cases hfull
    | ok a =>
      rw [hrun] at hfull
      obtain ⟨hsummary, hblocker⟩ := Prod.mk.inj (Except.ok.inj hfull)
      obtain ⟨a', hrun', hsummary', hreached⟩ := (counts_and_exit_of_verbosity strayTree).1 _ a
        (by decide) (by decide +kernel) hrun v
      exact ⟨a', hrun', hsummary'.trans hsummary, (hreached .blocker).trans hblocker⟩
  · intro v?
    have hload : ConfigFile.load strayTree {} "/repo" none = .ok {} := by decide +kernel
    rw [(counts_and_exit_of_verbosity strayTree).2 {} none (straySettings .major none) ?_ v?]
    · decide +kernel
    · intro config hconfig
      cases hload.symm.trans hconfig
      decide +kernel

/-- Under the id of the fault the rule is counted with the faults if the report is
minimized: what blocks with full verbosity is gone, and a check that fails with full
verbosity passes. -/
theorem counts_and_exit_of_clash :
    (strayPlan "any-unknown-label").rules.HoldsOnce ∧
    ((strayPlan "any-unknown-label").run strayTree).map
      (fun a => (Report.summary a.violations, Report.hasAtLeast a.violations .blocker)) =
        .ok ([(.major, 2), (.blocker, 1)], true) ∧
    (({ strayPlan "any-unknown-label" with verbosity := .minimized } : Plan).run strayTree).map
      (fun a => (Report.summary a.violations, Report.hasAtLeast a.violations .blocker)) =
        .ok ([(.major, 3)], false) ∧
    (Command.checkEffect strayTree {} none
      { straySettings .blocker (some "/rules") with verbosity? := some .full }).exit = 1 ∧
    (Command.checkEffect strayTree {} none
      { straySettings .blocker (some "/rules") with verbosity? := some .minimized }).exit = 0 := by
  refine ⟨by decide, ?_, ?_, ?_, ?_⟩ <;> decide +kernel

end Analysis

end ProxyLint
