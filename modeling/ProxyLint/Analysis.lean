import ProxyLint.Config
import ProxyLint.Evaluation
import ProxyLint.Farm.Decode
import ProxyLint.Httpd.Decode
import ProxyLint.Report

/-!
# Analysis of a repository

An analysis reads the entry files of a repository, evaluates the rules on what
they configure, and reduces the report. What a request leaves open is taken from
a configuration.

## Main definitions

* `ProxyLint.Analysis.Request` — what is asked for.
* `ProxyLint.Analysis.Plan` — what is going to be analyzed, with every setting
  decided.
* `ProxyLint.Analysis.Request.plan` — decides the settings.
* `ProxyLint.Analysis.Plan.run` — the result of an analysis.
-/

set_option relaxedAutoImplicit false
set_option autoImplicit false

namespace ProxyLint

/-- The result of an analysis. -/
structure Analysis where
  /-- The farms and their findings, if they were asked for. -/
  farms? : Option (Noted FarmConfig)
  /-- The sections of the web server and their findings, if they were asked for. -/
  sections? : Option (Noted HttpdConfig)
  /-- The reduced report. -/
  violations : List Violation
  /-- How much repetition the report keeps. -/
  verbosity : Verbosity
  deriving DecidableEq, Repr, Inhabited

namespace Analysis

/-- Why there is no result. -/
inductive Error where
  /-- A configuration cannot be read. -/
  | unreadable (failure : Include.Failure)
  /-- A rule does not fit. -/
  | evaluation (error : EvaluationError)
  /-- No entry file is named. -/
  | nothingToAnalyze
  deriving DecidableEq, Repr, Inhabited

namespace Error

/-- The error in words. -/
def message : Error → String
  | .unreadable f => f.message
  | .evaluation e => e.message
  | .nothingToAnalyze => "no entry file configured"

/-- The diagnostic code of the error. -/
def code : Error → String
  | .unreadable f => f.code
  | .evaluation _ => EvaluationError.code
  | .nothingToAnalyze => "dispatcher_lint::no_entry"

/-- Advice on how to repair what was asked for. -/
def help? : Error → Option String
  | .unreadable f => f.help?
  | .evaluation _ => some EvaluationError.help
  | .nothingToAnalyze => some "set `dispatcher_entry` or `httpd_entry` under [analyzer]"

end Error

/-- What is asked for. What is left open is taken from the configuration. -/
structure Request where
  /-- The configuration. -/
  config : Config := {}
  /-- The rules. -/
  rules : RuleList := .empty
  /-- The repository. -/
  repo? : Option String := none
  /-- The entry file of the farms. -/
  farmFile? : Option String := none
  /-- The entry file of the web server. -/
  httpdFile? : Option String := none
  /-- The folder that relative includes of the web server start from. -/
  serverRoot? : Option String := none
  /-- The limits of includes. -/
  limits? : Option Include.Limits := none
  /-- How much repetition the report keeps. -/
  verbosity? : Option Verbosity := none
  deriving DecidableEq, Repr, Inhabited

/-- What is going to be analyzed. -/
structure Plan where
  /-- The repository. -/
  repo : String
  /-- The entry file of the farms. -/
  farmFile? : Option String
  /-- The entry file of the web server. -/
  httpdFile? : Option String
  /-- The folder that relative includes of the web server start from. -/
  serverRoot? : Option String
  /-- The limits of includes. -/
  limits : Include.Limits
  /-- How much repetition the report keeps. -/
  verbosity : Verbosity
  /-- The rules. -/
  rules : RuleList
  deriving DecidableEq, Repr, Inhabited

/-- Decides the settings of a request. The repository has to be a directory, and
there has to be an entry file. -/
def Request.plan (r : Request) (t : FileTree) : Except Error Plan :=
  let settings := r.config.analyzer
  let repo := r.repo?.getD settings.repo
  let farmFile? := r.farmFile?.or settings.dispatcherEntry
  let httpdFile? := r.httpdFile?.or settings.httpdEntry
  if !t.isDir repo then .error (.unreadable (.repositoryMissing repo))
  else if farmFile?.isNone && httpdFile?.isNone then .error .nothingToAnalyze
  else
    .ok {
      repo, farmFile?, httpdFile?
      serverRoot? := r.serverRoot?.or settings.serverRoot
      limits := r.limits?.getD r.config.limits
      verbosity := r.verbosity?.getD settings.verbosity
      rules := r.rules }

namespace Plan

/-- How the files of a dialect are read. -/
def resolver (p : Plan) (dialect : Dialect) : Include.Resolver :=
  { dialect, root := p.repo, limits := p.limits
    serverRoot? := if dialect = .httpd then p.serverRoot? else none }

/-- The rule violations of a configuration after the findings of its reading. -/
def report (p : Plan) (findings : List Finding) (config : AnyConfig) :
    Except Error (List Violation) :=
  match p.rules.evaluate config with
  | .ok vs => .ok (findings.map Finding.violation ++ vs)
  | .error e => .error (.evaluation e)

/-- Reads the entry file of a dialect, if there is one, and evaluates the rules on
what it configures. -/
def examine {α : Type} (p : Plan) (t : FileTree) (dialect : Dialect) (file? : Option String)
    (decode : Include.Outcome → Except Include.Failure (Noted α)) (toConfig : α → AnyConfig) :
    Except Error (Option (Noted α) × List Violation) :=
  match file? with
  | none => .ok (none, [])
  | some file =>
    match decode ((p.resolver dialect).resolveFile t file) with
    | .error f => .error (.unreadable f)
    | .ok c => (p.report c.findings (toConfig c.value)).map fun vs => (some c, vs)

/-- The result of an analysis: the farms come before the web server. -/
def run (p : Plan) (t : FileTree) : Except Error Analysis := do
  let (farms?, first) ← p.examine t .any p.farmFile? FarmConfig.ofOutcome .farms
  let (sections?, second) ← p.examine t .httpd p.httpdFile? HttpdConfig.ofOutcome .sections
  return { farms?, sections?, violations := Report.reduce p.verbosity (first ++ second)
           verbosity := p.verbosity }

end Plan

/-- The result of an analysis of what is asked for. -/
def Request.run (r : Request) (t : FileTree) : Except Error Analysis := do
  (← r.plan t).run t

end Analysis

end ProxyLint
