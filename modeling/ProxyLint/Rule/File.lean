import ProxyLint.JsonValue
import ProxyLint.Rule

/-!
# Rule files

A rule file is a document that describes a rule list. It is first read by shape:
each description may be an object with named fields, of which unknown ones are
ignored, or an array of the fields in order. Then every rule is validated, and
the first rule that is not valid decides the error.

## Main definitions

* `ProxyLint.RuleFile.Draft` — a rule list as described, not yet validated.
* `ProxyLint.RuleFile.Error` — why a rule file cannot be used.
* `ProxyLint.RuleFile.validate` — the rule list of a valid draft.
* `ProxyLint.RuleFile.read` — the rule list that a text describes.
-/

set_option relaxedAutoImplicit false
set_option autoImplicit false

namespace ProxyLint.RuleFile

open JsonText

/-! ### Drafts -/

/-- A check as described. -/
structure DraftCheck where
  condition : String
  value : JsonValue := .null
  failIf : Bool := false
  context : Option String := none
  deriving Repr, Inhabited

/-- A rule as described. -/
structure DraftRule where
  id : String
  type : Option String := none
  tags : List String := []
  effort : Option String := none
  severity : String := "MAJOR"
  description : String := ""
  element : String
  farmTypes : List String := []
  checks : List DraftCheck := []
  enabled : Bool := true
  documentationUrl : Option String := none
  deriving Repr, Inhabited

/-- A rule list as described. -/
structure Draft where
  mergeMode : Option String := none
  rules : List DraftRule := []
  deriving Repr, Inhabited

/-- The known fields of a description, by name. An object has no known field
twice; an array has no more items than there are fields. -/
def fields? (names : List String) : Tree → Option (List (String × Tree))
  | .object members =>
    match members.mapM fun (name, v) => name.map fun n => (n, v) with
    | none => none
    | some named =>
      if names.all fun n => (named.filter fun m => m.1 == n).length ≤ 1 then
        some (named.filter fun m => names.contains m.1)
      else none
  | .array items => if items.length ≤ names.length then some (names.zip items) else none
  | _ => none

/-- The value of a field that has to be there. -/
def required? {α : Type} (read? : Tree → Option α) (fields : List (String × Tree))
    (name : String) : Option α :=
  (fields.lookup name).bind read?

/-- The value of a field, or the given one if it is not there. -/
def orElse? {α : Type} (read? : Tree → Option α) (fields : List (String × Tree))
    (name : String) (missing : α) : Option α :=
  match fields.lookup name with
  | some t => read? t
  | none => some missing

/-- A text. -/
def text? : Tree → Option String
  | .text s => s
  | _ => none

/-- A text or nothing. -/
def optionalText? : Tree → Option (Option String)
  | .null => some none
  | .text s => s.map some
  | _ => none

/-- A truth value. -/
def bool? : Tree → Option Bool
  | .bool b => some b
  | _ => none

/-- A list. -/
def list? {α : Type} (read? : Tree → Option α) : Tree → Option (List α)
  | .array items => items.mapM read?
  | _ => none

/-- How deeply the value of a check may be nested: a document has at most 127
levels, and a check stands on the fifth. -/
def valueDepth : Nat := 123

/-- A check as described. -/
def draftCheck? (t : Tree) : Option DraftCheck := do
  let fs ← fields? ["condition", "value", "failIf", "context"] t
  return {
    condition := ← required? text? fs "condition"
    value := ← orElse? (JsonValue.ofTree? valueDepth) fs "value" .null
    failIf := ← orElse? bool? fs "failIf" false
    context := ← orElse? optionalText? fs "context" none }

/-- A rule as described. -/
def draftRule? (t : Tree) : Option DraftRule := do
  let fs ← fields? ["id", "type", "tags", "effort", "severity", "description", "element",
    "farmTypeList", "checks", "enabled", "documentationURL"] t
  return {
    id := ← required? text? fs "id"
    type := ← orElse? optionalText? fs "type" none
    tags := ← orElse? (list? text?) fs "tags" []
    effort := ← orElse? optionalText? fs "effort" none
    severity := ← orElse? text? fs "severity" "MAJOR"
    description := ← orElse? text? fs "description" ""
    element := ← required? text? fs "element"
    farmTypes := ← orElse? (list? text?) fs "farmTypeList" []
    checks := ← orElse? (list? draftCheck?) fs "checks" []
    enabled := ← orElse? bool? fs "enabled" true
    documentationUrl := ← orElse? optionalText? fs "documentationURL" none }

/-- A rule list as described. -/
def draft? (t : Tree) : Option Draft := do
  let fs ← fields? ["mergeMode", "rules"] t
  return {
    mergeMode := ← orElse? optionalText? fs "mergeMode" none
    rules := ← orElse? (list? draftRule?) fs "rules" [] }

/-! ### Errors -/

/-- Why a value does not fit its condition. -/
inductive BadValue where
  /-- It is of the wrong kind. -/
  | expected (what : String) (found : JsonValue)
  /-- It is a pattern of the wrong shape. -/
  | malformed
  /-- It is a pattern that asks for nothing. -/
  | noFields (what : String)
  /-- It is a directive without a name. -/
  | emptyDirective
  deriving Repr, Inhabited

/-- The reason in words; a pattern of the wrong shape has none. -/
def BadValue.message? : BadValue → Option String
  | .expected what found => some ("expected " ++ what ++ ", found " ++ found.compact)
  | .malformed => none
  | .noFields what => some (what ++ " sets no fields")
  | .emptyDirective => some "directive must not be empty"

/-- Why a rule file cannot be used. -/
inductive Error where
  /-- It cannot be read as text. -/
  | unreadable
  /-- It is no document of the right shape. -/
  | malformed
  /-- A required text is blank. -/
  | emptyField (rule field : String)
  | unknownSeverity (rule value : String)
  | unknownFarmType (rule value : String)
  | unknownRuleType (rule value : String)
  | unknownMergeMode (value : String)
  | unknownCondition (rule value : String)
  | invalidCheckValue (rule condition : String) (why : BadValue)
  /-- Some checks look at one farm and some at all. -/
  | mixedTargets (rule : String)
  deriving Repr, Inhabited

/-- An error about a rule. -/
def Error.aboutRule (rule message : String) : String :=
  "rule `" ++ rule ++ "`: " ++ message

/-- The error in words, if it has any. -/
def Error.message? : Error → Option String
  | .unreadable | .malformed => none
  | .emptyField rule field => some (aboutRule rule ("`" ++ field ++ "` must not be empty"))
  | .unknownSeverity rule value =>
    some (aboutRule rule ("unknown severity `" ++ value ++
      "`, expected INFO, MINOR, MAJOR, CRITICAL or BLOCKER"))
  | .unknownFarmType rule value =>
    some (aboutRule rule ("unknown farm type `" ++ value ++ "`, expected AUTHOR or PUBLISH"))
  | .unknownRuleType rule value => some (aboutRule rule ("unknown type `" ++ value ++ "`"))
  | .unknownMergeMode value =>
    some ("unknown merge mode `" ++ value ++ "`, expected EXTEND or REPLACE")
  | .unknownCondition rule value => some (aboutRule rule ("unknown condition `" ++ value ++ "`"))
  | .invalidCheckValue rule condition why =>
    why.message?.map fun m =>
      aboutRule rule ("invalid value for " ++ condition ++ ": " ++ m)
  | .mixedTargets rule =>
    some (aboutRule rule "IS_UNIQUE_LABEL cannot be combined with per-target checks")

/-! ### Values of conditions -/

/-- The truth value of a value; a text may spell it. -/
def booleanOf? : JsonValue → Option Bool
  | .bool b => some b
  | .text s =>
    match Text.trim s with
    | "true" => some true
    | "false" => some false
    | _ => none
  | _ => none

/-- The integer of a value; a text may spell it. -/
def integerOf? : JsonValue → Option Int
  | .number (.integer n) => if Text.fitsInt64 n then some n else none
  | .text s => Text.readInt64? (Text.strip s.toList)
  | _ => none

/-- The text of a value; numbers and truth values spell one. -/
def textOf? : JsonValue → Option String
  | .text s => some s
  | .number n => some n.text
  | .bool b => some (Condition.boolText b)
  | _ => none

/-- The fields of a pattern, which is an object with known names or an array of
the fields in order. -/
def patternFields? (names : List String) : JsonValue → Option (List (String × JsonValue))
  | .object members => if members.all fun m => names.contains m.1 then some members else none
  | .array items => if items.length ≤ names.length then some (names.zip items) else none
  | _ => none

/-- The text of a field of a pattern, if it has one. -/
def patternText? (fields : List (String × JsonValue)) (name : String) : Option (Option String) :=
  match fields.lookup name with
  | none | some .null => some none
  | some (.text s) => some (some s)
  | some _ => none

/-- A pattern of filter entries. -/
def filterPattern (v : JsonValue) : Except BadValue FilterPattern :=
  let read : Option FilterPattern := do
    let fs ← patternFields? (FilterField.all.map FilterField.label) v
    FilterField.all.foldlM (fun p f => do return p.set f (← patternText? fs f.label)) {}
  match read with
  | none => .error .malformed
  | some p => if FilterFields.isEmpty p then .error (.noFields "filter pattern") else .ok p

/-- A pattern of entries of a rule list. -/
def rulePattern (v : JsonValue) : Except BadValue RulePattern :=
  let read : Option RulePattern := do
    let fs ← patternFields? ["type", "glob"] v
    return { type := ← patternText? fs "type", glob := ← patternText? fs "glob" }
  match read with
  | none => .error .malformed
  | some p => if p == {} then .error (.noFields "rule pattern") else .ok p

/-- A directive that is looked for. -/
def directivePattern (v : JsonValue) : Except BadValue DirectivePattern :=
  match v with
  | .text s =>
    match Text.words s with
    | name :: arguments => .ok ⟨name, arguments⟩
    | [] => .error .emptyDirective
  | _ => .error (.expected "a directive string" v)

/-- A value that a reader accepts. -/
def expecting {α : Type} (what : String) (read? : JsonValue → Option α) (v : JsonValue) :
    Except BadValue α :=
  match read? v with
  | some a => .ok a
  | none => .error (.expected what v)

/-- The condition of a name, in upper case, and a value; `none` if there is no
condition of that name. -/
def condition? (name : String) (v : JsonValue) : Option (Except BadValue Condition) :=
  match name with
  | "BOOLEAN_EQUALS" => some ((expecting "a boolean" booleanOf? v).map .booleanEquals)
  | "INTEGER_EQUALS" => some ((expecting "an integer" integerOf? v).map .integerEquals)
  | "INTEGER_GREATER_OR_EQUAL" =>
    some ((expecting "an integer" integerOf? v).map .integerGreaterOrEqual)
  | "INTEGER_LESS_OR_EQUAL" => some ((expecting "an integer" integerOf? v).map .integerLessOrEqual)
  | "STRING_EQUALS" => some ((expecting "a string" textOf? v).map .stringEquals)
  | "STRING_LIST_INCLUDES" => some ((expecting "a string" textOf? v).map .stringListIncludes)
  | "IS_PRESENT" => some (.ok .isPresent)
  | "IS_UNIQUE_LABEL" => some (.ok .isUniqueLabel)
  | "FILTER_LIST_INCLUDES" => some ((filterPattern v).map .filterListIncludes)
  | "FILTER_LIST_STARTS_WITH" => some ((filterPattern v).map .filterListStartsWith)
  | "RULE_LIST_INCLUDES" => some ((rulePattern v).map .ruleListIncludes)
  | "RULE_LIST_STARTS_WITH" => some ((rulePattern v).map .ruleListStartsWith)
  | "HAS_DIRECTIVE" => some ((directivePattern v).map .hasDirective)
  | _ => none

/-! ### Validation -/

/-- The check of a valid description. -/
def check (rule : String) (d : DraftCheck) : Except Error Check :=
  let name := Text.upper d.condition
  match condition? name d.value with
  | none => .error (.unknownCondition rule d.condition)
  | some (.error why) => .error (.invalidCheckValue rule name why)
  | some (.ok condition) =>
    .ok { condition, failIf := d.failIf, context := d.context.filter fun c => !c.isEmpty }

/-- The value that a reader finds, or an error. -/
def orFail {α : Type} (v : Option α) (e : Error) : Except Error α :=
  match v with
  | some a => .ok a
  | none => .error e

/-- The farm types of a rule, in order; none named means all. -/
def farmTypes (rule : String) (names : List String) : Except Error (List FarmType) :=
  if names.isEmpty then .ok FarmType.all
  else do
    let given ← names.mapM fun n => orFail (FarmType.ofText? n) (.unknownFarmType rule n)
    return FarmType.all.filter given.contains

/-- Whether some checks look at one farm and some at all. -/
def isMixed (checks : List Check) : Bool :=
  let multi := checks.countP fun c => c.condition.isMultiTarget
  multi != 0 && multi != checks.length

/-- The rule of a valid description, which is number `index` of its file. -/
def rule (origin : String) (index : Nat) (d : DraftRule) : Except Error Rule := do
  if Text.isBlankText d.id then
    throw (.emptyField ("rules[" ++ Text.ofNat index ++ "]") "id")
  if Text.isBlankText d.element then throw (.emptyField d.id "element")
  let severity ← orFail (Severity.ofText? d.severity) (.unknownSeverity d.id d.severity)
  let type ←
    match d.type with
    | none => pure RuleType.codeSmell
    | some t => orFail (RuleType.ofText? t) (.unknownRuleType d.id t)
  let farmTypes ← farmTypes d.id d.farmTypes
  let checks ← d.checks.mapM (check d.id)
  if isMixed checks then throw (.mixedTargets d.id)
  return { id := d.id, element := d.element, description := d.description, severity, farmTypes
           checks, tags := d.tags, effort := d.effort, enabled := d.enabled, origin, type
           documentationUrl := d.documentationUrl }

/-- The merge mode of a valid description; a rule list extends if it says
nothing. -/
def mergeMode : Option String → Except Error MergeMode
  | none => .ok .extend
  | some s => orFail (MergeMode.ofText? s) (.unknownMergeMode (Text.upper s))

/-- The rule list of a valid draft. -/
def validate (origin : String) (d : Draft) : Except Error RuleList := do
  let mode ← mergeMode d.mergeMode
  let rules ← (d.rules.zipIdx).mapM fun (r, i) => rule origin i r
  return RuleList.ofRules mode rules

/-- The rule list that a text describes. -/
def read (origin text : String) : Except Error RuleList :=
  match (JsonText.read? text).bind draft? with
  | none => .error .malformed
  | some d => validate origin d

end ProxyLint.RuleFile
