import Mathlib.Data.List.Basic
import ProxyLint.Analysis

set_option relaxedAutoImplicit false
set_option autoImplicit false

/-!
# Two dialects in one analysis

An analysis of the farms and of the web server is the two analyses by themselves, put
together: the dialects share the rules, the limits and the report, but what is found in one
does not depend on the other. The farms come first, in the report as well as in what makes
the analysis fail.

## Main definitions

* `ProxyLint.Analysis.Plan.farmsOnly`, `ProxyLint.Analysis.Plan.sectionsOnly` — a plan for one
  of the dialects.
* `ProxyLint.Analysis.together` — the results for the two dialects as one.

## Main results

* `ProxyLint.Analysis.Plan.map_examine_eq_ok_iff` — what is found in one dialect.
* `ProxyLint.Analysis.run_of_two_files` — an analysis of both dialects is made of the analyses
  of each.
-/

namespace ProxyLint.Analysis

namespace Plan

variable {p : Plan} {t : FileTree}

/-- The plan for the farms by themselves, with nothing left out of the report. -/
def farmsOnly (p : Plan) : Plan :=
  { p with httpdFile? := none, verbosity := .full }

/-- The plan for the web server by itself, with nothing left out of the report. -/
def sectionsOnly (p : Plan) : Plan :=
  { p with farmFile? := none, verbosity := .full }

/-! ### One dialect -/

/-- What is found in a dialect, seen in some way: its entry file is read, and the rules are
evaluated on what it configures. The faults of reading come before the violations of rules.

**Proof sketch.** Both steps succeed: the entry file is decoded, and the rules are evaluated on what
has been decoded. -/
lemma map_examine_eq_ok_iff {α : Type} {dialect : Dialect} {file : String}
    {decode : Include.Outcome → Except Include.Failure (Noted α)} {toConfig : α → AnyConfig}
    {view : Option (Noted α) × List Violation → Analysis} {a : Analysis} :
    (p.examine t dialect (some file) decode toConfig).map view = .ok a ↔
      ∃ c vs, decode ((p.resolver dialect).resolveFile t file) = .ok c ∧
        p.rules.evaluate (toConfig c.value) = .ok vs ∧
        a = view (some c, c.findings.map Finding.violation ++ vs) := by
  simp only [examine, report]
  constructor
  · intro h
    cases hdecode : decode ((p.resolver dialect).resolveFile t file) with
    | error f => rw [hdecode] at h; cases h
    | ok c =>
      rw [hdecode] at h
      dsimp only at h
      cases heval : p.rules.evaluate (toConfig c.value) with
      | error e => rw [heval] at h; cases h
      | ok vs =>
        rw [heval] at h
        cases h
        exact ⟨c, vs, rfl, heval, rfl⟩
  · rintro ⟨c, vs, hdecode, heval, rfl⟩
    rw [hdecode]
    dsimp only
    rw [heval]
    rfl

/-- The farms by themselves are found as they are found beside the web server. -/
lemma run_farmsOnly (p : Plan) (t : FileTree) :
    p.farmsOnly.run t = (p.examine t .any p.farmFile? FarmConfig.ofOutcome .farms).map
      fun found => ⟨found.1, none, found.2, .full⟩ := by
  have hsame : p.farmsOnly.examine t .any p.farmsOnly.farmFile? FarmConfig.ofOutcome .farms =
      p.examine t .any p.farmFile? FarmConfig.ofOutcome .farms := rfl
  unfold run
  rw [hsame]
  cases p.examine t .any p.farmFile? FarmConfig.ofOutcome .farms with
  | error e => rfl
  | ok found =>
    show Except.ok (⟨found.1, none, found.2 ++ [], .full⟩ : Analysis) = _
    rw [List.append_nil]
    rfl

/-- So is the web server. -/
lemma run_sectionsOnly (p : Plan) (t : FileTree) :
    p.sectionsOnly.run t = (p.examine t .httpd p.httpdFile? HttpdConfig.ofOutcome .sections).map
      fun found => ⟨none, found.1, found.2, .full⟩ := by
  have hsame : p.sectionsOnly.examine t .httpd p.sectionsOnly.httpdFile? HttpdConfig.ofOutcome
      .sections = p.examine t .httpd p.httpdFile? HttpdConfig.ofOutcome .sections := rfl
  have hnone : p.sectionsOnly.examine t .any p.sectionsOnly.farmFile? FarmConfig.ofOutcome
      .farms = .ok (none, []) := rfl
  unfold run
  rw [hsame, hnone]
  cases p.examine t .httpd p.httpdFile? HttpdConfig.ofOutcome .sections <;> rfl

end Plan

/-! ### Both dialects -/

/-- The results for the farms and for the web server as one: the farms come first, and an error
in one of them, the first if there are two, is an error of both. -/
def together (v : Verbosity) : Except Error Analysis → Except Error Analysis →
    Except Error Analysis
  | .error e, _ => .error e
  | .ok _, .error e => .error e
  | .ok a, .ok b =>
    .ok { farms? := a.farms?, sections? := b.sections?
          violations := Report.reduce v (a.violations ++ b.violations), verbosity := v }

/-- **The dialects of an analysis do not interfere.** With an entry file for each, an analysis
has a result if the analyses of each dialect by itself have one; its farms and sections are
theirs, and its report reduces what is reported of the farms, in full, followed by what is
reported of the web server. Otherwise it fails with the error of the farms, or, if these have
a result, with that of the web server. What is reported of a dialect in full are the faults of
reading its entry file, followed by what the rules find in the configuration. -/
theorem run_of_two_files {p : Plan} {farmFile httpdFile : String}
    (hfarm : p.farmFile? = some farmFile) (hhttpd : p.httpdFile? = some httpdFile)
    (t : FileTree) :
    p.run t = together p.verbosity (p.farmsOnly.run t) (p.sectionsOnly.run t) ∧
    (∀ a, p.farmsOnly.run t = .ok a ↔ ∃ c vs,
      FarmConfig.ofOutcome ((p.resolver .any).resolveFile t farmFile) = .ok c ∧
      p.rules.evaluate (.farms c.value) = .ok vs ∧
      a = ⟨some c, none, c.findings.map Finding.violation ++ vs, .full⟩) ∧
    (∀ b, p.sectionsOnly.run t = .ok b ↔ ∃ c vs,
      HttpdConfig.ofOutcome ((p.resolver .httpd).resolveFile t httpdFile) = .ok c ∧
      p.rules.evaluate (.sections c.value) = .ok vs ∧
      b = ⟨none, some c, c.findings.map Finding.violation ++ vs, .full⟩) := by
  refine ⟨?_, fun a => ?_, fun b => ?_⟩
  · rw [p.run_farmsOnly, p.run_sectionsOnly, Plan.run]
    cases p.examine t .any p.farmFile? FarmConfig.ofOutcome .farms with
    | error e => rfl
    | ok found =>
      cases p.examine t .httpd p.httpdFile? HttpdConfig.ofOutcome .sections <;> rfl
  · rw [p.run_farmsOnly, hfarm]
    exact Plan.map_examine_eq_ok_iff
  · rw [p.run_sectionsOnly, hhttpd]
    exact Plan.map_examine_eq_ok_iff

/-- A repository with farms and a web server. A farm has a label that is not known and no cache;
a section of the web server is never closed. -/
def hostTree : FileTree :=
  ⟨.dir [("repo", .dir [
    ("d.any", .file (some "/farms \x7b /site \x7b\n/bogus 1\n/bogus 2\n\x7d \x7d")),
    ("httpd.conf", .file (some "<Directory />\nOptions All"))])], []⟩

/-- An analysis of both, with one rule for each dialect. -/
def hostPlan : Plan where
  repo := "/repo"
  farmFile? := some "d.any"
  httpdFile? := some "httpd.conf"
  serverRoot? := none
  limits := {}
  verbosity := .minimized
  rules := ⟨.extend, [
    { id := "no-override", element := "httpd.directory"
      checks := [{ condition := .hasDirective ⟨"AllowOverride", []⟩ }] },
    { id := "cache", element := "farm.cache", checks := [{ condition := .isPresent }] }]⟩

/-- The report of both dialects is that of the farms followed by that of the web server, each
with its faults before the violations of its rule, and minimized as a whole. -/
theorem run_hostPlan :
    ∃ a b, hostPlan.farmsOnly.run hostTree = .ok a ∧ hostPlan.sectionsOnly.run hostTree = .ok b ∧
      a.violations.map (fun v => v.rule.id) = ["any-unknown-label", "any-unknown-label", "cache"] ∧
      b.violations.map (fun v => v.rule.id) = ["httpd-unclosed-section", "no-override"] ∧
      hostPlan.run hostTree = .ok ⟨a.farms?, b.sections?,
        Report.reduce .minimized (a.violations ++ b.violations), .minimized⟩ := by
  have hjoint := (run_of_two_files (p := hostPlan) rfl rfl hostTree).1
  have hfarms : (hostPlan.farmsOnly.run hostTree).map
      (fun a => a.violations.map fun v => v.rule.id) =
        .ok ["any-unknown-label", "any-unknown-label", "cache"] := by
    decide +kernel
  have hsections : (hostPlan.sectionsOnly.run hostTree).map
      (fun b => b.violations.map fun v => v.rule.id) =
        .ok ["httpd-unclosed-section", "no-override"] := by
    decide +kernel
  cases ha : hostPlan.farmsOnly.run hostTree with
  | error e => rw [ha] at hfarms; cases hfarms
  | ok a =>
    cases hb : hostPlan.sectionsOnly.run hostTree with
    | error e => rw [hb] at hsections; cases hsections
    | ok b =>
      rw [ha] at hfarms
      rw [hb] at hsections
      rw [ha, hb] at hjoint
      exact ⟨a, b, rfl, rfl, Except.ok.inj hfarms, Except.ok.inj hsections, hjoint⟩

end ProxyLint.Analysis
