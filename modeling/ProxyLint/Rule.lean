import ProxyLint.Rule.Condition
import ProxyLint.Rule.Kind

/-!
# Rules and rule lists

A rule names an element of the configuration and the checks it has to pass. Rule
lists are kept in order and hold each id once: a rule takes the place of an
earlier one with its id.

## Main definitions

* `ProxyLint.Rule` — a rule.
* `ProxyLint.RuleList` — an ordered list of rules with its merge mode.
* `ProxyLint.RuleList.put` — adds a rule or lets it take the place of its
  namesake.
* `ProxyLint.RuleList.merge` — combines two lists.
-/

set_option relaxedAutoImplicit false
set_option autoImplicit false

namespace ProxyLint

/-- A rule: what is checked where, and how a failure is described. -/
structure Rule where
  /-- The identity of the rule. -/
  id : String
  /-- The dotted path of the checked element. -/
  element : String
  /-- What the rule asks for, in words. -/
  description : String := ""
  /-- How much a failure matters. -/
  severity : Severity := .major
  /-- The farm types the rule applies to, in order and without repetition. -/
  farmTypes : List FarmType := FarmType.all
  /-- The checks in order. -/
  checks : List Check := []
  /-- Free-form tags. -/
  tags : List String := []
  /-- The effort of a repair, such as `10min`. -/
  effort : Option String := none
  /-- Whether the rule is evaluated. -/
  enabled : Bool := true
  /-- The name of the file the rule was read from. -/
  origin : String := ""
  /-- What sort of problem the rule finds. -/
  type : RuleType := .codeSmell
  /-- Where more is written about the rule. -/
  documentationUrl : Option String := none
  deriving DecidableEq, Repr, Inhabited

namespace Rule

/-- The dialect that the first word of the element path names. -/
def dialect? (r : Rule) : Option Dialect :=
  match (Text.fields '.' r.element).head? with
  | some first => [Dialect.any, .httpd].find? fun d => d.rootToken == first
  | none => none

/-- Whether the checks look at all farms at once. -/
def isMultiTarget (r : Rule) : Bool :=
  match r.checks with
  | c :: _ => c.condition.isMultiTarget
  | [] => false

/-- Whether the rule applies to farms of a type. -/
def appliesTo (r : Rule) (t : FarmType) : Bool :=
  r.farmTypes.contains t

/-- Whether two rules count as one: a rule is known by its id. -/
def isSame (r other : Rule) : Bool :=
  r.id == other.id

/-- Whether `other` looks like the same rule under another id. -/
def isCloseMatch (r other : Rule) : Bool :=
  r.severity == other.severity && r.enabled == other.enabled &&
    r.description == other.description && other.farmTypes.all r.farmTypes.contains

end Rule

/-- How a list combines with the one before it. -/
inductive MergeMode where
  /-- Its rules are added, or take the place of their namesakes. -/
  | extend
  /-- It takes the place of the whole list before it. -/
  | replace
  deriving DecidableEq, Repr, Inhabited

namespace MergeMode

/-- The written form. -/
def text : MergeMode → String
  | .extend => "EXTEND"
  | .replace => "REPLACE"

/-- Reads a merge mode in any letter case. -/
def ofText? (s : String) : Option MergeMode :=
  ofSpelling? text [.extend, .replace] s

end MergeMode

/-- Rules in order, each id once. -/
structure RuleList where
  /-- How the list combines with the one before it. -/
  mode : MergeMode := .extend
  /-- The rules. -/
  rules : List Rule := []
  deriving DecidableEq, Repr, Inhabited

/-- What a configuration says about one rule. -/
structure Override where
  /-- Whether the rule is evaluated. -/
  enabled : Option Bool := none
  /-- How much a failure matters. -/
  severity : Option Severity := none
  deriving DecidableEq, Repr, Inhabited

/-- The rule as an override leaves it. -/
def Override.apply (o : Override) (r : Rule) : Rule :=
  { r with enabled := o.enabled.getD r.enabled, severity := o.severity.getD r.severity }

namespace RuleList

/-- The list without rules. -/
def empty : RuleList := {}

/-- Lets a rule take the place of the rule with its id, or adds it at the end. -/
def put (rules : List Rule) (r : Rule) : List Rule :=
  match rules with
  | [] => [r]
  | x :: xs => if x.isSame r then r :: xs else x :: put xs r

/-- The list of the given rules; of two with one id the later one stays, in the
earlier one's place. -/
def ofRules (mode : MergeMode) (rules : List Rule) : RuleList :=
  ⟨mode, rules.foldl put []⟩

/-- The rules that are evaluated. -/
def enabledRules (l : RuleList) : List Rule :=
  l.rules.filter Rule.enabled

/-- The rule with an id. -/
def get? (l : RuleList) (id : String) : Option Rule :=
  l.rules.find? fun r => r.id == id

/-- The list after another one has been merged into it. An empty list and a
replacing one leave nothing of what was there. -/
def merge (l incoming : RuleList) : RuleList :=
  if l.rules.isEmpty || incoming.mode == .replace then incoming
  else { l with rules := incoming.rules.foldl put l.rules }

/-- The list with what a configuration says about its rules. -/
def withOverrides (l : RuleList) (override? : String → Option Override) : RuleList :=
  { l with rules := l.rules.map fun r =>
      match override? r.id with
      | some o => o.apply r
      | none => r }

/-- The list with every rule enabled. -/
def withAllEnabled (l : RuleList) : RuleList :=
  { l with rules := l.rules.map fun r => { r with enabled := true } }

end RuleList

end ProxyLint
