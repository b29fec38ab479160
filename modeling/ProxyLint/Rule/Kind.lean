import ProxyLint.Text

/-!
# Classes of rules and farms

The closed sets of words that rules are described with, each with its spelling
and its reader. Readers ignore the case of ASCII letters.

## Main definitions

* `ProxyLint.Severity`, `ProxyLint.FarmType`, `ProxyLint.RuleType`.
* `ProxyLint.Verbosity` — how much repetition a report keeps.
* `ProxyLint.Dialect` — the two configuration languages.
-/

set_option relaxedAutoImplicit false
set_option autoImplicit false

namespace ProxyLint

/-- The value whose spelling is `text` up to letter case. -/
def ofSpelling? {α : Type} (spell : α → String) (values : List α) (text : String) : Option α :=
  values.find? fun v => Text.upper text == Text.upper (spell v)

/-- How much a violated rule matters. -/
inductive Severity where
  | info
  | minor
  | major
  | critical
  | blocker
  deriving DecidableEq, Repr, Inhabited

namespace Severity

/-- The severities from the lowest to the highest. -/
def all : List Severity :=
  [.info, .minor, .major, .critical, .blocker]

/-- The position in that order. -/
def rank : Severity → Nat
  | .info => 0
  | .minor => 1
  | .major => 2
  | .critical => 3
  | .blocker => 4

/-- The written form. -/
def text : Severity → String
  | .info => "INFO"
  | .minor => "MINOR"
  | .major => "MAJOR"
  | .critical => "CRITICAL"
  | .blocker => "BLOCKER"

/-- Reads a severity in any letter case. -/
def ofText? (s : String) : Option Severity :=
  ofSpelling? text all s

end Severity

/-- What kind of instance a farm stands in front of. -/
inductive FarmType where
  | author
  | publish
  deriving DecidableEq, Repr, Inhabited

namespace FarmType

/-- The farm types in order. -/
def all : List FarmType :=
  [.author, .publish]

/-- The written form. -/
def text : FarmType → String
  | .author => "AUTHOR"
  | .publish => "PUBLISH"

/-- Reads a farm type in any letter case. -/
def ofText? (s : String) : Option FarmType :=
  ofSpelling? text all s

end FarmType

/-- What sort of problem a rule finds. -/
inductive RuleType where
  | codeSmell
  | bug
  | vulnerability
  | securityHotspot
  deriving DecidableEq, Repr, Inhabited

namespace RuleType

/-- The rule types in order. -/
def all : List RuleType :=
  [.codeSmell, .bug, .vulnerability, .securityHotspot]

/-- The written form. -/
def text : RuleType → String
  | .codeSmell => "CODE_SMELL"
  | .bug => "BUG"
  | .vulnerability => "VULNERABILITY"
  | .securityHotspot => "SECURITY_HOTSPOT"

/-- Reads a rule type in any letter case. -/
def ofText? (s : String) : Option RuleType :=
  ofSpelling? text all s

end RuleType

/-- How much repetition a report keeps. -/
inductive Verbosity where
  /-- Every violation. -/
  | full
  /-- One for each rule, context, file and line. -/
  | grouped
  /-- One for each rule. -/
  | minimized
  deriving DecidableEq, Repr, Inhabited

namespace Verbosity

/-- The verbosities from the most to the least repetitive. -/
def all : List Verbosity :=
  [.full, .grouped, .minimized]

/-- The written form. -/
def text : Verbosity → String
  | .full => "full"
  | .grouped => "partial"
  | .minimized => "minimized"

/-- Reads a verbosity, which is written in lower case. -/
def ofText? (s : String) : Option Verbosity :=
  all.find? fun v => s == v.text

end Verbosity

/-- The two configuration languages. -/
inductive Dialect where
  /-- Nested labels and braces. -/
  | any
  /-- Directives and sections of the web server. -/
  | httpd
  deriving DecidableEq, Repr, Inhabited

/-- The word that element paths of a dialect start with. -/
def Dialect.rootToken : Dialect → String
  | .any => "farm"
  | .httpd => "httpd"

end ProxyLint
