import ProxyLint.Report.Format
import ProxyLint.Rule.Builtin

/-!
# Command lines

A command line names a command and sets its switches. Switches are written
`--name value`, `--name=value`, `-n value`, `-n=value` or `-nvalue`, and short
ones without a value may be joined; after `--` nothing is a switch. A switch may
be given once before the command, if it belongs to every command, and once after
it, which then counts.

## Main definitions

* `ProxyLint.Switch` — what can be set.
* `ProxyLint.Command` — a command with its settings.
* `ProxyLint.CommandLine.Scan` — what has been read of a command line.
* `ProxyLint.CommandLine.read` — the command of a command line.
-/

set_option relaxedAutoImplicit false
set_option autoImplicit false

namespace ProxyLint

/-- What can be set on a command line. -/
inductive Switch where
  | verbose
  | config
  | version
  /-- The path, which has no name. -/
  | path
  | dispatcher
  | httpd
  | serverRoot
  | format
  | verbosity
  | rulesFolder
  | preset
  | failOn
  | force
  deriving DecidableEq, Repr, Inhabited

namespace Switch

/-- The long name. -/
def long? : Switch → Option String
  | .verbose => some "verbose"
  | .config => some "config"
  | .version => some "version"
  | .path => none
  | .dispatcher => some "dispatcher"
  | .httpd => some "httpd"
  | .serverRoot => some "server-root"
  | .format => some "format"
  | .verbosity => some "verbosity"
  | .rulesFolder => some "rules-folder"
  | .preset => some "preset"
  | .failOn => some "fail-on"
  | .force => some "force"

/-- The short name. -/
def short? : Switch → Option Char
  | .verbose => some 'v'
  | .config => some 'c'
  | .version => some 'V'
  | .format => some 'f'
  | _ => none

/-- Whether the switch has a value. -/
def hasValue : Switch → Bool
  | .verbose | .version | .force => false
  | _ => true

/-- Whether a value may be given: paths are not empty, and words are known. -/
def accepts (s : Switch) (value : String) : Bool :=
  match s with
  | .config | .path | .serverRoot | .rulesFolder => !value.isEmpty
  | .format => (Report.Format.ofText? value).isSome
  | .verbosity => (Verbosity.ofText? value).isSome
  | .preset => Preset.all.any fun p => p.text == value
  | .failOn => (Severity.ofText? value).isSome
  | _ => true

end Switch

/-- The commands by name. -/
inductive CommandName where
  | check
  | listRules
  | init
  deriving DecidableEq, Repr, Inhabited

namespace CommandName

/-- The commands in order. -/
def all : List CommandName :=
  [.check, .listRules, .init]

/-- The written form. -/
def text : CommandName → String
  | .check => "check"
  | .listRules => "list-rules"
  | .init => "init"

/-- Reads the name of a command. -/
def ofText? (s : String) : Option CommandName :=
  all.find? fun c => s == c.text

/-- The switches of a command. -/
def switches : CommandName → List Switch
  | .check =>
    [.verbose, .config, .path, .dispatcher, .httpd, .serverRoot, .format, .verbosity,
      .rulesFolder, .preset, .failOn]
  | .listRules => [.verbose, .config, .rulesFolder, .preset]
  | .init => [.verbose, .config, .force]

end CommandName

/-- What `check` is told. -/
structure CheckSettings where
  /-- The repository. -/
  path? : Option String := none
  /-- The entry file of the farms. -/
  dispatcher? : Option String := none
  /-- The entry file of the web server. -/
  httpd? : Option String := none
  /-- The folder that relative includes of the web server start from. -/
  serverRoot? : Option String := none
  /-- The form of the report. -/
  format : Report.Format := .text
  /-- How much repetition the report keeps. -/
  verbosity? : Option Verbosity := none
  /-- A folder with more rules. -/
  rulesFolder? : Option String := none
  /-- The rules to start from. -/
  preset : Preset := .recommended
  /-- The severity that makes the check fail. -/
  failOn : Severity := .major
  deriving DecidableEq, Repr, Inhabited

/-- A command with its settings. -/
inductive Command where
  /-- Analyzes a repository. -/
  | check (settings : CheckSettings)
  /-- Lists the rules. -/
  | listRules (rulesFolder? : Option String) (preset : Preset)
  /-- Writes a configuration to start from. -/
  | init (force : Bool)
  deriving DecidableEq, Repr, Inhabited

namespace CommandLine

/-- Why a command line names no command to carry out. -/
inductive Stop where
  /-- It is malformed. -/
  | usage
  /-- It asks for the version. -/
  | version
  deriving DecidableEq, Repr, Inhabited

/-- Switches and their values, each switch once. -/
abbrev Given := List (Switch × String)

/-- What has been read of a command line. -/
structure Scan where
  /-- The command, once it has been named. -/
  command? : Option CommandName := none
  /-- What was given before the command. -/
  outer : Given := []
  /-- What was given after the command. -/
  inner : Given := []
  /-- The switch that waits for its value. -/
  pending? : Option Switch := none
  /-- Whether no more switches can come. -/
  isPlain : Bool := false
  deriving DecidableEq, Repr, Inhabited

namespace Scan

/-- The switches that can come. -/
def switches (s : Scan) : List Switch :=
  match s.command? with
  | some c => c.switches
  | none => [.verbose, .config, .version]

/-- Sets a switch, which may be set once. -/
def give (s : Scan) (switch : Switch) (value : String) : Except Stop Scan :=
  let s := { s with pending? := none }
  let given := if s.command?.isSome then s.inner else s.outer
  if switch = .version then .error .version
  else if (given.lookup switch).isSome || !switch.accepts value then .error .usage
  else if s.command?.isSome then .ok { s with inner := s.inner ++ [(switch, value)] }
  else .ok { s with outer := s.outer ++ [(switch, value)] }

/-- Reads `--name` or `--name=value`. -/
def longSwitch (s : Scan) (word : List Char) : Except Stop Scan :=
  let (name, value) := word.span (· != '=')
  match s.switches.find? fun x => x.long? == some (String.ofList name) with
  | none => .error .usage
  | some switch =>
    match switch.hasValue, value with
    | true, [] => .ok { s with pending? := some switch }
    | true, _ :: value => s.give switch (String.ofList value)
    | false, [] => s.give switch ""
    | false, _ :: _ => .error .usage

/-- Reads joined short switches, of which the last one may have a value. -/
def shortSwitches (s : Scan) : List Char → Except Stop Scan
  | [] => .ok s
  | c :: rest =>
    match s.switches.find? fun x => x.short? == some c with
    | none => .error .usage
    | some switch =>
      if !switch.hasValue then do shortSwitches (← s.give switch "") rest
      else
        match rest with
        | [] => .ok { s with pending? := some switch }
        | '=' :: value => s.give switch (String.ofList value)
        | value => s.give switch (String.ofList value)

/-- Reads a word that is no switch: the value of one, the command, or the path. -/
def plainWord (s : Scan) (word : String) : Except Stop Scan :=
  match s.pending?, s.command? with
  | some switch, _ => s.give switch word
  | none, none =>
    match CommandName.ofText? word with
    | some c => if s.isPlain then .error .usage else .ok { s with command? := some c }
    | none => .error .usage
  | none, some c => if c.switches.contains .path then s.give .path word else .error .usage

/-- Reads a word of the command line. A switch that waits for its value does not
take a word that looks like a switch. -/
def step (s : Scan) (word : String) : Except Stop Scan :=
  if s.isPlain then s.plainWord word
  else
    match word.toList with
    | ['-'] => s.plainWord word
    | '-' :: rest =>
      if s.pending?.isSome then .error .usage
      else
        match rest with
        | ['-'] => .ok { s with isPlain := true }
        | '-' :: name => s.longSwitch name
        | _ => s.shortSwitches rest
    | _ => s.plainWord word

/-- The value of a switch; after the command counts. -/
def value? (s : Scan) (switch : Switch) : Option String :=
  (s.inner.lookup switch).or (s.outer.lookup switch)

/-- The preset that is asked for. -/
def preset (s : Scan) : Preset :=
  ((s.value? .preset).bind Preset.ofText?).getD .recommended

/-- The settings of the command. -/
def command (s : Scan) : CommandName → Command
  | .check => .check {
      path? := s.value? .path
      dispatcher? := s.value? .dispatcher
      httpd? := s.value? .httpd
      serverRoot? := s.value? .serverRoot
      format := ((s.value? .format).bind Report.Format.ofText?).getD .text
      verbosity? := (s.value? .verbosity).bind Verbosity.ofText?
      rulesFolder? := s.value? .rulesFolder
      preset := s.preset
      failOn := ((s.value? .failOn).bind Severity.ofText?).getD .major }
  | .listRules => .listRules (s.value? .rulesFolder) s.preset
  | .init => .init (s.value? .force).isSome

end Scan

/-- A command and the configuration file it is given. -/
structure Invocation where
  /-- The configuration file. -/
  config? : Option String
  /-- The command. -/
  command : Command
  deriving DecidableEq, Repr, Inhabited

/-- The command of a command line. -/
def read (words : List String) : Except Stop Invocation := do
  let s ← words.foldlM Scan.step {}
  match s.pending?, s.command? with
  | none, some c => return ⟨s.value? .config, s.command c⟩
  | _, _ => throw .usage

end CommandLine

end ProxyLint
