import ProxyLint.FileTree
import ProxyLint.Include
import ProxyLint.Rule.Gathering
import ProxyLint.Toml

/-!
# Configuration of an analysis

What a configuration file can set: where the analysis looks and how it reports,
and overrides for single rules. Unknown settings are ignored. A group of settings
may also be written as an array of its values in order, of which surplus ones are
ignored, and a date in the place of a group sets nothing.

## Main definitions

* `ProxyLint.Config` — the settings.
* `ProxyLint.Config.read?` — the settings that a text spells.
* `ProxyLint.Config.load` — the settings of a file.
-/

set_option relaxedAutoImplicit false
set_option autoImplicit false

namespace ProxyLint

/-- Where an analysis looks and how it reports. -/
structure AnalyzerSettings where
  /-- The repository. -/
  repo : String := "."
  /-- The entry file of the farms, inside the repository. -/
  dispatcherEntry : Option String := none
  /-- The entry file of the web server, inside the repository. -/
  httpdEntry : Option String := none
  /-- The folder that relative includes of the web server start from. -/
  serverRoot : Option String := none
  /-- How much repetition the report keeps. -/
  verbosity : Verbosity := .grouped
  /-- A folder with more rules. -/
  rulesFolder : Option String := none
  /-- How deeply includes may be nested. -/
  maxIncludeDepth : Nat := ({} : Include.Limits).depth
  /-- How many lines may be resolved. -/
  maxLines : Nat := ({} : Include.Limits).lines
  deriving DecidableEq, Repr, Inhabited

/-- The settings of an analysis. -/
structure Config where
  /-- Where the analysis looks and how it reports. -/
  analyzer : AnalyzerSettings := {}
  /-- What is said about single rules, by id. -/
  rules : List (String × Override) := []
  deriving DecidableEq, Repr, Inhabited

namespace Config

/-- What is said about a rule. -/
def override? (c : Config) (id : String) : Option Override :=
  c.rules.lookup id

/-- The limits of includes. -/
def limits (c : Config) : Include.Limits :=
  { depth := c.analyzer.maxIncludeDepth, lines := c.analyzer.maxLines }

/-! ### Settings from values -/

open Toml (Value Members)

/-- The named parts of a group of settings. -/
def parts? (names : List String) : Value → Option Members
  | .table _ members => some members
  | .array items => some (names.zip items)
  | .tables earlier last => some (names.zip ((earlier ++ [last]).map (Value.table .header)))
  | .scalar (.moment _) => some []
  | .scalar _ => none

/-- A setting: `missing` if it is not there, and `none` if it cannot be read. -/
def setting? {α : Type} (parts : Members) (name : String) (missing : α)
    (read? : Value → Option α) : Option α :=
  match parts.get? name with
  | none => some missing
  | some v => read? v

/-- A text. -/
def text? : Value → Option String
  | .scalar (.text s) => some s
  | _ => none

/-- A number that is not negative. -/
def count? : Value → Option Nat
  | .scalar (.integer (.ofNat n)) => some n
  | _ => none

/-- A truth value. -/
def flag? : Value → Option Bool
  | .scalar (.boolean b) => some b
  | _ => none

/-- Whether a value is an array or a table without parts. -/
def isEmptyGroup : Value → Bool
  | .array [] => true
  | .table _ [] => true
  | _ => false

/-- One of several words, given as a text or as the name of an empty group that
is alone in its table. -/
def word? : Value → Option String
  | .scalar (.text s) => some s
  | .table _ [(name, v)] => if isEmptyGroup v then some name else none
  | _ => none

/-- A severity in upper case. -/
def severity? (v : Value) : Option Severity :=
  (word? v).bind fun s => Severity.all.find? fun x => x.text == s

/-- The settings of the analyzer. -/
def analyzer? (v : Value) : Option AnalyzerSettings := do
  let parts ← parts? ["repo", "dispatcher_entry", "httpd_entry", "server_root", "verbosity",
    "rules_folder", "max_include_depth", "max_lines"] v
  let plain : AnalyzerSettings := {}
  let optionalText (name : String) : Option (Option String) :=
    setting? parts name none fun v => (text? v).map some
  return {
    repo := ← setting? parts "repo" plain.repo text?
    dispatcherEntry := ← optionalText "dispatcher_entry"
    httpdEntry := ← optionalText "httpd_entry"
    serverRoot := ← optionalText "server_root"
    verbosity := ← setting? parts "verbosity" plain.verbosity fun v =>
      (word? v).bind Verbosity.ofText?
    rulesFolder := ← optionalText "rules_folder"
    maxIncludeDepth := ← setting? parts "max_include_depth" plain.maxIncludeDepth count?
    maxLines := ← setting? parts "max_lines" plain.maxLines count? }

/-- What is said about a rule. -/
def overrideOf? (v : Value) : Option Override := do
  let parts ← parts? ["enabled", "severity"] v
  return {
    enabled := ← setting? parts "enabled" none fun v => (flag? v).map some
    severity := ← setting? parts "severity" none fun v => (severity? v).map some }

/-- What is said about single rules. -/
def overrides? : Value → Option (List (String × Override))
  | .table _ members => members.mapM fun (id, v) => (overrideOf? v).map fun o => (id, o)
  | _ => none

/-- The settings of a document. -/
def ofMembers? (members : Members) : Option Config := do
  return {
    analyzer := ← setting? members "analyzer" {} analyzer?
    rules := ← setting? members "rules" [] overrides? }

/-- The settings that a text spells. -/
def read? (text : String) : Option Config :=
  (Toml.read? text).bind ofMembers?

/-- Why the settings of a file cannot be used. -/
inductive Error where
  /-- The file cannot be read. -/
  | unreadable
  /-- The file does not spell settings. -/
  | malformed
  deriving DecidableEq, Repr, Inhabited

/-- The settings of a file. -/
def load (t : FileTree) (path : String) : Except Error Config :=
  match t.read? path with
  | none => .error .unreadable
  | some text =>
    match read? text with
    | none => .error .malformed
    | some c => .ok c

end Config

/-- The list with the rules of a folder merged into it, and then with what a
configuration says about its rules. -/
def RuleList.configured (base : RuleList) (t : FileTree) (folder? : Option String) (c : Config) :
    RuleList :=
  let gathered :=
    match folder? with
    | some folder => (Gathering.addFolder { list := base } t folder).list
    | none => base
  gathered.withOverrides c.override?

end ProxyLint
