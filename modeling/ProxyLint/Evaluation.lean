import ProxyLint.Target
import ProxyLint.Violation

/-!
# Evaluation of rules

A check observes whether its condition holds of a target, and fails if that is
what it must not find. A rule is violated at a target by its first check that
fails there.

## Main definitions

* `ProxyLint.Condition.observe` — whether a condition holds, and what was found.
* `ProxyLint.Check.perform` — the result of a check.
* `ProxyLint.Rule.violation?` — the violation of a rule at a target.
* `ProxyLint.RuleList.evaluate` — the violations of the rules of a dialect.
-/

set_option relaxedAutoImplicit false
set_option autoImplicit false

namespace ProxyLint

/-- Whether a condition holds, what was found, and where. -/
structure Observation where
  /-- Whether the condition holds. -/
  holds : Bool
  /-- What was found, in words. -/
  found : String
  /-- Where it was found. -/
  source? : Option Source
  deriving DecidableEq, Repr, Inhabited

/-! ### Patterns -/

/-- A field that is asked for has the text. -/
def fieldFits (expected actual : Option String) : Bool :=
  match expected with
  | some e => actual == some e
  | none => true

/-- Whether a filter entry fits a pattern. -/
def FilterPattern.fits (p : FilterPattern) (f : Filter) : Bool :=
  FilterField.all.all fun k => fieldFits (FilterFields.get p k) (f.fields.get k)

/-- Whether an entry of a rule list fits a pattern. -/
def RulePattern.fits (p : RulePattern) (r : CacheRule) : Bool :=
  fieldFits p.type r.type && fieldFits p.glob r.glob

/-- Whether a directive of the right name fits a pattern. -/
def DirectivePattern.fits (p : DirectivePattern) (d : Directive) : Bool :=
  p.arguments.isEmpty || d.arguments.map Text.lower == p.arguments.map Text.lower

/-- A filter entry in the form of a block, with its main fields. -/
def Filter.text (f : Filter) : String :=
  let shown : List FilterField := [.type, .url, .glob, .method, .path, .extension]
  "/" ++ f.label ++ " " ++ blockText (shown.map fun k => (k.label, f.fields.get k))

/-- An entry of a rule list in the form of a block. -/
def CacheRule.text (r : CacheRule) : String :=
  "/" ++ r.label ++ " " ++ blockText [("type", r.type), ("glob", r.glob)]

/-! ### Observations -/

/-- The farms whose label occurs for the second time, given the labels before. -/
def repeatedFarms (seen : List String) : List Farm → List Farm
  | [] => []
  | f :: rest =>
    let others := repeatedFarms (f.label.value :: seen) rest
    if seen.count f.label.value == 1 then f :: others else others

/-- Whether farm labels are unique. -/
def observeLabels (farms : List Farm) : Observation :=
  let again := repeatedFarms [] farms
  { holds := again.isEmpty
    found :=
      if again.isEmpty then "unique labels"
      else "duplicate label(s) " ++ Text.joinWith ", " (again.map fun f => f.label.value)
    source? := again.head?.map fun f => f.label.source }

/-- The directives of a name in the closest section that has one. -/
def HttpdConfig.nearest? (c : HttpdConfig) (id : Nat) (name : String) : Option (List Directive) :=
  (c.ancestors id).findSome? fun j =>
    (c.get? j).bind fun s =>
      let named := s.directives.toList.filter fun d => d.isNamed name
      if named.isEmpty then none else some named

/-- Whether the closest section with a directive of the name has one that fits. -/
def observeDirective (p : DirectivePattern) (c : HttpdConfig) (id : Nat) : Observation :=
  let here := (c.get? id).map Section.source
  match c.nearest? id p.name with
  | none => ⟨false, "no " ++ p.name ++ " directive", here⟩
  | some named =>
    match named.find? p.fits with
    | some d => ⟨true, d.text, some d.source⟩
    | none => ⟨false, (named.getLast?.map Directive.text).getD "", here⟩

/-- What is observed of a list: whether it holds, and where the list is. -/
def observeList {α : Type} (v : Sourced (List α)) (holds : Bool) (found : String) : Observation :=
  ⟨holds, found, some v.source⟩

/-- Whether a condition holds of a target, and what was found. -/
def Condition.observe (c : Condition) (t : Target) : Except Misfit Observation :=
  let missing : Except Misfit Observation := .ok ⟨false, "nothing configured", none⟩
  let misfit : Except Misfit Observation := .error (.incompatibleTarget c.name t.kind)
  match c, t with
  | .isPresent, .missing => missing
  | .isPresent, t => .ok ⟨true, "a configured value", t.source?⟩
  | .isUniqueLabel, .farms fs => .ok (observeLabels fs)
  | .isUniqueLabel, _ => misfit
  | .hasDirective p, .section config id => .ok (observeDirective p config id)
  | .hasDirective _, _ => misfit
  | _, .missing => missing
  | .booleanEquals b, .boolean v => .ok ⟨v.value == b, boolText v.value, some v.source⟩
  | .integerEquals n, .integer v => .ok ⟨v.value == n, Text.ofInt v.value, some v.source⟩
  | .integerGreaterOrEqual n, .integer v => .ok ⟨n ≤ v.value, Text.ofInt v.value, some v.source⟩
  | .integerLessOrEqual n, .integer v => .ok ⟨v.value ≤ n, Text.ofInt v.value, some v.source⟩
  | .stringEquals s, .text v => .ok ⟨v.value == s, "\"" ++ v.value ++ "\"", some v.source⟩
  | .stringListIncludes s, .textList v =>
    .ok (observeList v (v.value.contains s) ("[" ++ Text.joinWith ", " v.value ++ "]"))
  | .filterListIncludes p, .filters v =>
    .ok (observeList v (v.value.any (FilterPattern.fits p))
      (Text.ofNat v.value.length ++ " filter(s) without a match"))
  | .filterListStartsWith p, .filters v =>
    .ok (observeList v (v.value.head?.any (FilterPattern.fits p))
      ((v.value.head?.map Filter.text).getD "an empty filter list"))
  | .ruleListIncludes p, .rules v =>
    .ok (observeList v (v.value.any p.fits)
      (Text.ofNat v.value.length ++ " rule(s) without a match"))
  | .ruleListStartsWith p, .rules v =>
    .ok (observeList v (v.value.head?.any p.fits)
      ((v.value.head?.map CacheRule.text).getD "an empty rule list"))
  | _, _ => misfit

/-! ### Checks -/

/-- The result of a check. -/
structure CheckResult where
  /-- Whether the check passed. -/
  passed : Bool
  /-- What was expected and found; empty if it passed. -/
  details : String := ""
  /-- Where it failed, if that is known. -/
  source? : Option Source := none
  deriving DecidableEq, Repr, Inhabited

/-- The result of a check at a target. -/
def Check.perform (c : Check) (t : Target) : Except Misfit CheckResult := do
  let o ← c.condition.observe t
  if o.holds != c.failIf then return { passed := true }
  else
    let verb := if c.failIf then "did not expect " else "expected "
    return { passed := false
             details := verb ++ c.condition.text ++ "; found " ++ o.found
             source? := o.source? }

/-! ### Rules -/

/-- A rule that does not fit the configuration. -/
structure EvaluationError where
  /-- The id of the rule. -/
  rule : String
  /-- The path of its element. -/
  element : String
  /-- Why it does not fit. -/
  misfit : Misfit
  deriving DecidableEq, Repr, Inhabited

namespace EvaluationError

/-- The error in words. -/
def message (e : EvaluationError) : String :=
  "rule `" ++ e.rule ++ "` (element `" ++ e.element ++ "`): " ++ e.misfit.message

/-- The diagnostic code of the error. -/
def code : String :=
  "dispatcher_lint::evaluation"

/-- Advice on how to repair the rule. -/
def help : String :=
  "fix the rule definition"

end EvaluationError

namespace Rule

/-- The error that the rule does not fit. -/
def misfit (r : Rule) (m : Misfit) : EvaluationError :=
  ⟨r.id, r.element, m⟩

/-- A step that may find that the rule does not fit. -/
def fitting {α : Type} (r : Rule) (x : Except Misfit α) : Except EvaluationError α :=
  x.mapError r.misfit

/-- The context of a violation: the element, the check's own context and the
details, as far as they are not empty. -/
def contextOf (r : Rule) (c : Check) (details : String) : String :=
  Text.joinWith ": " ([r.element, c.context.getD "", details].filter fun s => !s.isEmpty)

/-- The violation by the first of the checks that fails at a target. A failure
without a place of its own is at `fallback?`. -/
def firstFailure? (r : Rule) (t : Target) (fallback? : Option Source) :
    List Check → Except EvaluationError (Option Violation)
  | [] => .ok none
  | c :: rest => do
    let result ← r.fitting (c.perform t)
    if result.passed then firstFailure? r t fallback? rest
    else
      return some { rule := r, context := r.contextOf c result.details
                    source? := result.source?.or fallback? }

/-- The violation of the rule at a target. -/
def violation? (r : Rule) (t : Target) (fallback? : Option Source) :
    Except EvaluationError (Option Violation) :=
  r.firstFailure? t fallback? r.checks

/-- The lists that a function finds for the members of a list, joined; the first
error ends it. -/
def collect {α β : Type} (f : α → Except EvaluationError (List β)) :
    List α → Except EvaluationError (List β)
  | [] => .ok []
  | a :: rest => do
    let first ← f a
    let others ← collect f rest
    return first ++ others

/-- The violations of the rule in a farm. -/
def violationsInFarm (r : Rule) (f : Farm) : Except EvaluationError (List Violation) := do
  let target ← r.fitting (f.locate r.element)
  return (← r.violation? target (some f.label.source)).toList

/-- The violations of the rule in the farms it applies to. -/
def violationsInFarms (r : Rule) (config : FarmConfig) :
    Except EvaluationError (List Violation) :=
  match config.farms.filter fun f => r.appliesTo f.type with
  | [] => .ok []
  | first :: rest =>
    let farms := first :: rest
    if r.isMultiTarget then
      (r.violation? (.farms farms) (some first.label.source)).map Option.toList
    else collect r.violationsInFarm farms

/-- The violations of the rule in the sections it selects. -/
def violationsInSections (r : Rule) (config : HttpdConfig) :
    Except EvaluationError (List Violation) := do
  let ids ← r.fitting (config.select r.element)
  collect (fun id => do
    let v ← r.violation? (.section config id) ((config.get? id).map Section.source)
    return v.toList) ids

end Rule

/-- A configuration of either dialect. -/
inductive AnyConfig where
  | farms (config : FarmConfig)
  | sections (config : HttpdConfig)
  deriving DecidableEq, Repr, Inhabited

/-- The dialect of a configuration. -/
def AnyConfig.dialect : AnyConfig → Dialect
  | .farms _ => .any
  | .sections _ => .httpd

/-- The violations of one rule; a rule of the other dialect has none. -/
def Rule.evaluate (r : Rule) (config : AnyConfig) : Except EvaluationError (List Violation) :=
  match r.dialect? with
  | none => .error (r.misfit (.wrongRoot config.dialect.rootToken))
  | some d =>
    if d != config.dialect then .ok []
    else
      match config with
      | .farms c => r.violationsInFarms c
      | .sections c => r.violationsInSections c

/-- The violations of all enabled rules, in the order of the rules. -/
def RuleList.evaluate (l : RuleList) (config : AnyConfig) :
    Except EvaluationError (List Violation) :=
  Rule.collect (fun r => r.evaluate config) l.enabledRules

end ProxyLint
