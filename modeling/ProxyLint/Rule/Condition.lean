import ProxyLint.Text

/-!
# Conditions

What a check can ask of a configuration value. A condition carries the value it
compares with, and says in words what it expects.

## Main definitions

* `ProxyLint.FilterPattern`, `ProxyLint.RulePattern`, `ProxyLint.DirectivePattern`.
* `ProxyLint.Condition` — the closed set of conditions.
* `ProxyLint.Check` — a condition with its polarity and context.
-/

set_option relaxedAutoImplicit false
set_option autoImplicit false

namespace ProxyLint

/-- The fields that a filter entry may set. -/
inductive FilterField where
  | type
  | url
  | glob
  | method
  | query
  | protocol
  | path
  | selectors
  | extension
  | suffix
  deriving DecidableEq, Repr, Inhabited

namespace FilterField

/-- The fields in the order in which patterns list them. -/
def all : List FilterField :=
  [.type, .url, .glob, .method, .query, .protocol, .path, .selectors, .extension, .suffix]

/-- The label of a field. -/
def label : FilterField → String
  | .type => "type"
  | .url => "url"
  | .glob => "glob"
  | .method => "method"
  | .query => "query"
  | .protocol => "protocol"
  | .path => "path"
  | .selectors => "selectors"
  | .extension => "extension"
  | .suffix => "suffix"

/-- The field of a label. -/
def ofLabel? (label : String) : Option FilterField :=
  all.find? fun f => f.label == label

end FilterField

/-- A text for some of the filter fields. -/
structure FilterFields where
  type : Option String := none
  url : Option String := none
  glob : Option String := none
  method : Option String := none
  query : Option String := none
  protocol : Option String := none
  path : Option String := none
  selectors : Option String := none
  extension : Option String := none
  suffix : Option String := none
  deriving DecidableEq, Repr, Inhabited

namespace FilterFields

/-- The text of a field. -/
def get (fs : FilterFields) : FilterField → Option String
  | .type => fs.type
  | .url => fs.url
  | .glob => fs.glob
  | .method => fs.method
  | .query => fs.query
  | .protocol => fs.protocol
  | .path => fs.path
  | .selectors => fs.selectors
  | .extension => fs.extension
  | .suffix => fs.suffix

/-- The fields with one of them changed. -/
def set (fs : FilterFields) (f : FilterField) (v : Option String) : FilterFields :=
  match f with
  | .type => { fs with type := v }
  | .url => { fs with url := v }
  | .glob => { fs with glob := v }
  | .method => { fs with method := v }
  | .query => { fs with query := v }
  | .protocol => { fs with protocol := v }
  | .path => { fs with path := v }
  | .selectors => { fs with selectors := v }
  | .extension => { fs with extension := v }
  | .suffix => { fs with suffix := v }

/-- A field that has been set has its new value. -/
@[simp] theorem get_set_self (fs : FilterFields) (f : FilterField) (v : Option String) :
    (fs.set f v).get f = v := by
  cases f <;> rfl

/-- The other fields keep their values. -/
@[simp] theorem get_set_of_ne (fs : FilterFields) {f g : FilterField} (v : Option String)
    (h : g ≠ f) : (fs.set f v).get g = fs.get g := by
  cases f <;> cases g <;> simp_all [set, get]

/-- Whether no field is set. -/
def isEmpty (fs : FilterFields) : Bool :=
  FilterField.all.all fun f => (fs.get f).isNone

end FilterFields

/-- Labels and texts in the form of a one-line block. -/
def blockText (pairs : List (String × Option String)) : String :=
  let shown := pairs.filterMap fun (label, value) =>
    value.map fun v => "/" ++ label ++ " \"" ++ v ++ "\""
  "\x7b " ++ Text.joinWith " " shown ++ " \x7d"

/-- The shape of a filter entry: a field that is set must agree with it. -/
abbrev FilterPattern := FilterFields

/-- The pattern in the form of a block. -/
def FilterPattern.text (p : FilterPattern) : String :=
  blockText (FilterField.all.map fun f => (f.label, p.get f))

/-- The shape of an entry of a cache rule list. -/
structure RulePattern where
  /-- Value of `/type`. -/
  type : Option String := none
  /-- Value of `/glob`. -/
  glob : Option String := none
  deriving DecidableEq, Repr, Inhabited

/-- The pattern in the form of a block. -/
def RulePattern.text (p : RulePattern) : String :=
  blockText [("type", p.type), ("glob", p.glob)]

/-- A directive that is looked for. Without arguments it stands for the name
alone. -/
structure DirectivePattern where
  /-- The name of the directive. -/
  name : String
  /-- Its arguments. -/
  arguments : List String
  deriving DecidableEq, Repr, Inhabited

/-- The pattern as a line of configuration. -/
def DirectivePattern.text (p : DirectivePattern) : String :=
  Text.joinWith " " (p.name :: p.arguments)

/-- What a check can ask. -/
inductive Condition where
  /-- A boolean property has the value. -/
  | booleanEquals (value : Bool)
  /-- An integer property has the value. -/
  | integerEquals (value : Int)
  /-- An integer property is at least the value. -/
  | integerGreaterOrEqual (value : Int)
  /-- An integer property is at most the value. -/
  | integerLessOrEqual (value : Int)
  /-- A text property has the value. -/
  | stringEquals (value : String)
  /-- A list of texts has the value as a member. -/
  | stringListIncludes (value : String)
  /-- The property is configured at all. -/
  | isPresent
  /-- Some entry of the filter fits. -/
  | filterListIncludes (pattern : FilterPattern)
  /-- The first entry of the filter fits. -/
  | filterListStartsWith (pattern : FilterPattern)
  /-- Some entry of the rule list fits. -/
  | ruleListIncludes (pattern : RulePattern)
  /-- The first entry of the rule list fits. -/
  | ruleListStartsWith (pattern : RulePattern)
  /-- No two farms have the same label. -/
  | isUniqueLabel
  /-- The section or one around it has the directive. -/
  | hasDirective (pattern : DirectivePattern)
  deriving DecidableEq, Repr, Inhabited

namespace Condition

/-- The name of a condition in rule files. -/
def name : Condition → String
  | .booleanEquals _ => "BOOLEAN_EQUALS"
  | .integerEquals _ => "INTEGER_EQUALS"
  | .integerGreaterOrEqual _ => "INTEGER_GREATER_OR_EQUAL"
  | .integerLessOrEqual _ => "INTEGER_LESS_OR_EQUAL"
  | .stringEquals _ => "STRING_EQUALS"
  | .stringListIncludes _ => "STRING_LIST_INCLUDES"
  | .isPresent => "IS_PRESENT"
  | .filterListIncludes _ => "FILTER_LIST_INCLUDES"
  | .filterListStartsWith _ => "FILTER_LIST_STARTS_WITH"
  | .ruleListIncludes _ => "RULE_LIST_INCLUDES"
  | .ruleListStartsWith _ => "RULE_LIST_STARTS_WITH"
  | .isUniqueLabel => "IS_UNIQUE_LABEL"
  | .hasDirective _ => "HAS_DIRECTIVE"

/-- Whether the condition looks at all farms at once. -/
def isMultiTarget : Condition → Bool
  | .isUniqueLabel => true
  | _ => false

/-- The written form of a truth value. -/
def boolText (b : Bool) : String :=
  if b then "true" else "false"

/-- What the condition expects, in words. -/
def text : Condition → String
  | .booleanEquals v => "value to be " ++ boolText v
  | .integerEquals v => "value to be " ++ Text.ofInt v
  | .integerGreaterOrEqual v => "value to be at least " ++ Text.ofInt v
  | .integerLessOrEqual v => "value to be at most " ++ Text.ofInt v
  | .stringEquals v => "value to be \"" ++ v ++ "\""
  | .stringListIncludes v => "list to include \"" ++ v ++ "\""
  | .isPresent => "property to be configured"
  | .filterListIncludes p => "filter list to include " ++ FilterPattern.text p
  | .filterListStartsWith p => "filter list to start with " ++ FilterPattern.text p
  | .ruleListIncludes p => "rule list to include " ++ p.text
  | .ruleListStartsWith p => "rule list to start with " ++ p.text
  | .isUniqueLabel => "farm labels to be unique"
  | .hasDirective p => "directive `" ++ p.text ++ "`"

end Condition

/-- A condition with its polarity and context. -/
structure Check where
  /-- The condition that is evaluated. -/
  condition : Condition
  /-- The truth of the condition that makes the check fail. -/
  failIf : Bool := false
  /-- A text that is reported with failures. -/
  context : Option String := none
  deriving DecidableEq, Repr, Inhabited

end ProxyLint
