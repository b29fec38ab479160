import ProxyLint.Rule
import ProxyLint.Source

/-!
# Violations

A violation says which rule is broken, how and where. Faults are what reading a
configuration can find without stopping; each has a built-in rule of its own, so
that it is reported like any other violation.

## Main definitions

* `ProxyLint.Violation` — a violated rule at a place.
* `ProxyLint.Fault` — the recoverable faults of a configuration text.
* `ProxyLint.Finding` — a fault at a place.
-/

set_option relaxedAutoImplicit false
set_option autoImplicit false

namespace ProxyLint

/-- The size of a group, which is never 0. Nothing here keeps it within a machine word: what becomes
of larger sums is said where reports are reduced. -/
abbrev Count := { n : Nat // 0 < n }

/-- A violated rule at a place. -/
structure Violation where
  /-- The rule. -/
  rule : Rule
  /-- How it is violated. -/
  context : String
  /-- Where, if that is known. -/
  source? : Option Source
  /-- How many violations this one stands for, if it stands for a group. -/
  count? : Option Count := none
  deriving DecidableEq, Repr, Inhabited

namespace Violation

/-- How many violations this one stands for. -/
def occurrences (v : Violation) : Nat :=
  match v.count? with
  | some n => n.val
  | none => 1

/-- Whether the violation stands for a group. -/
def isCounted (v : Violation) : Bool :=
  v.count?.isSome

/-- The file of the violation. -/
def file? (v : Violation) : Option String :=
  v.source?.bind Source.file?

/-- The line of the violation. -/
def line? (v : Violation) : Option Nat :=
  v.source?.bind Source.line?

/-- The file that included the file of the violation. -/
def includedFrom? (v : Violation) : Option String :=
  v.source?.bind Source.includedFrom?

/-- The violation on one line of text. -/
def text (v : Violation) : String :=
  let place := (v.source?.getD Source.unknown).text
  let count :=
    match v.count? with
    | some n => " (x" ++ Text.ofNat n.val ++ ")"
    | none => ""
  place ++ ": " ++ v.rule.severity.text ++ " [" ++ v.rule.id ++ "] " ++ v.context ++ count

end Violation

/-- The recoverable faults of a configuration text. -/
inductive Fault where
  /-- A label without a value, or a `}` without an open block. -/
  | anyBraceMissing
  /-- A block that is still open where it has to end. -/
  | anyBraceUnclosed
  /-- A label that is not known. -/
  | anyUnknownLabel
  /-- A value that should be an integer. -/
  | anyInvalidInteger
  /-- A value of the wrong shape. -/
  | anyUnexpectedValue
  /-- A quoted value without its closing quote. -/
  | anyUnmatchedQuote
  /-- A label that is out of use. -/
  | anyDeprecatedProperty
  /-- An include pattern that matches nothing. -/
  | anyIncludeNoMatch
  /-- A section opener without its `>`. -/
  | httpdMalformedSection
  /-- A section that is still open where it has to end. -/
  | httpdUnclosedSection
  /-- A section closer without an open section. -/
  | httpdUnexpectedSectionClose
  /-- An argument without its closing quote. -/
  | httpdUnmatchedQuote
  /-- An include that matches nothing. -/
  | httpdIncludeFailed
  deriving DecidableEq, Repr, Inhabited

namespace Fault

/-- The faults in order. -/
def all : List Fault :=
  [.anyBraceMissing, .anyBraceUnclosed, .anyUnknownLabel, .anyInvalidInteger,
    .anyUnexpectedValue, .anyUnmatchedQuote, .anyDeprecatedProperty, .anyIncludeNoMatch,
    .httpdMalformedSection, .httpdUnclosedSection, .httpdUnexpectedSectionClose,
    .httpdUnmatchedQuote, .httpdIncludeFailed]

/-- The id of the fault's rule. -/
def id : Fault → String
  | .anyBraceMissing => "any-brace-missing"
  | .anyBraceUnclosed => "any-brace-unclosed"
  | .anyUnknownLabel => "any-unknown-label"
  | .anyInvalidInteger => "any-invalid-integer"
  | .anyUnexpectedValue => "any-unexpected-value"
  | .anyUnmatchedQuote => "any-unmatched-quote"
  | .anyDeprecatedProperty => "any-deprecated-property"
  | .anyIncludeNoMatch => "any-include-no-match"
  | .httpdMalformedSection => "httpd-malformed-section"
  | .httpdUnclosedSection => "httpd-unclosed-section"
  | .httpdUnexpectedSectionClose => "httpd-unexpected-section-close"
  | .httpdUnmatchedQuote => "httpd-unmatched-quote"
  | .httpdIncludeFailed => "httpd-include-failed"

/-- What the fault's rule asks for. -/
def description : Fault → String
  | .anyBraceMissing => "Every label must be followed by a value or a block"
  | .anyBraceUnclosed => "Every opened block must be closed"
  | .anyUnknownLabel => "Only known dispatcher properties may be used"
  | .anyInvalidInteger => "Numeric properties must hold integers"
  | .anyUnexpectedValue => "Property values must have the expected shape"
  | .anyUnmatchedQuote => "Quoted values must be closed"
  | .anyDeprecatedProperty => "Deprecated properties should be replaced"
  | .anyIncludeNoMatch => "Include patterns should match at least one file"
  | .httpdMalformedSection => "Section openers must end with '>'"
  | .httpdUnclosedSection => "Every opened section must be closed"
  | .httpdUnexpectedSectionClose => "Section closers must match an open section"
  | .httpdUnmatchedQuote => "Quoted arguments must be closed"
  | .httpdIncludeFailed => "Include directives must match at least one file"

/-- The severity of the fault's rule. -/
def severity : Fault → Severity
  | .anyDeprecatedProperty | .anyIncludeNoMatch => .minor
  | .httpdIncludeFailed | .anyUnknownLabel => .major
  | _ => .critical

/-- The dialect in which the fault occurs. -/
def dialect : Fault → Dialect
  | .httpdMalformedSection | .httpdUnclosedSection | .httpdUnexpectedSectionClose
  | .httpdUnmatchedQuote | .httpdIncludeFailed => .httpd
  | _ => .any

/-- The built-in rule that the fault violates. -/
def rule (f : Fault) : Rule :=
  { id := f.id
    element := f.dialect.rootToken
    description := f.description
    severity := f.severity
    type := .bug
    tags := ["syntax"]
    origin := "built-in" }

end Fault

/-- A fault at a place. -/
structure Finding where
  /-- The fault. -/
  fault : Fault
  /-- What exactly is wrong. -/
  context : String
  /-- Where it is. -/
  source : Source
  deriving DecidableEq, Repr, Inhabited

/-- The finding as a violation of the fault's rule. -/
def Finding.violation (f : Finding) : Violation :=
  { rule := f.fault.rule, context := f.context, source? := some f.source }

end ProxyLint
