import ProxyLint.Analysis
import ProxyLint.Command.Line

/-!
# Commands

What the commands do, as a function of the files, the environment and the command
line: the exit status, what is written to standard output, and the files that are
written.

## Main definitions

* `ProxyLint.Environment` — what the environment says about configurations.
* `ProxyLint.ConfigFile.find?` — the configuration file for a directory.
* `ProxyLint.ConfigFile.load` — the configuration for a directory.
* `ProxyLint.Effect` — what a command does.
* `ProxyLint.CommandLine.run` — what a command line does.
-/

set_option relaxedAutoImplicit false
set_option autoImplicit false

namespace ProxyLint

/-- What the environment says about configurations. -/
structure Environment where
  /-- The folder of the global configuration. -/
  configDir? : Option String := none
  /-- The home of the user. -/
  home? : Option String := none
  deriving DecidableEq, Repr, Inhabited

/-- The folder of the global configuration. -/
def Environment.globalDir? (env : Environment) : Option String :=
  env.configDir?.or (env.home?.map fun home => Path.join home ".dispatcher-lint")

/-! ### Configuration files -/

namespace ConfigFile

/-- The names of configuration files of a project. -/
def projectNames : List String :=
  ["dispatcher-lint.toml", ".dispatcher-lint.toml"]

/-- The name of the global configuration file. -/
def globalName : String :=
  "config.toml"

/-- Where the configuration file of a directory may be: in it, or in a folder around
it. -/
def projectCandidates (t : FileTree) (dir : String) : List String :=
  let start := (t.canonical? dir).getD dir
  (Path.ancestors start).flatMap fun folder =>
    projectNames.map fun name => Path.join folder name

/-- Where the global configuration file may be. -/
def globalCandidate? (env : Environment) : Option String :=
  env.globalDir?.map fun folder => Path.join folder globalName

/-- The configuration file for a directory: the one that is asked for, that of the
project, or the global one. -/
def find? (t : FileTree) (env : Environment) (dir : String) (asked? : Option String) :
    Option String :=
  asked?.or ((projectCandidates t dir ++ (globalCandidate? env).toList).find? t.isFile)

/-- The configuration with its paths seen from a folder. -/
def anchor (c : Config) (folder : String) : Config :=
  let settings := c.analyzer
  { c with analyzer := { settings with
      repo := Path.join folder settings.repo
      rulesFolder := settings.rulesFolder.map fun f => Path.join folder f } }

/-- The configuration for a directory. Its paths are seen from the folder of its
file. -/
def load (t : FileTree) (env : Environment) (dir : String) (asked? : Option String) :
    Except Config.Error Config :=
  match find? t env dir asked? with
  | none => .ok {}
  | some path =>
    (Config.load t path).map fun c =>
      match (Path.parent? path).filter fun p => !p.isEmpty with
      | some folder => anchor c folder
      | none => c

end ConfigFile

/-! ### Effects -/

/-- What a command does. -/
structure Effect where
  /-- The exit status. -/
  exit : Nat := 0
  /-- What is written to standard output. -/
  output : String := ""
  /-- The files that are written. -/
  written : List (String × String) := []
  deriving DecidableEq, Repr, Inhabited

/-- What a command that fails does. -/
def Effect.fail (exit : Nat) : Effect :=
  { exit }

/-! ### Listing rules -/

/-- A text with blanks after it, so that it takes at least so many characters. -/
def padded (width : Nat) (s : String) : String :=
  s ++ String.ofList (List.replicate (width - s.length) ' ')

/-- A row of the list of rules. -/
def rulesRow (id severity enabled origin description : String) : String :=
  Text.joinWith " " [padded 32 id, severity, padded 8 enabled, padded 18 origin, description]

/-- The name of a preset in a heading. -/
def Preset.title : Preset → String
  | .recommended => "Recommended"
  | .strict => "Strict"
  | .minimal => "Minimal"

/-- The list of rules in words. -/
def rulesText (preset : Preset) (l : RuleList) : String :=
  let row (r : Rule) : String :=
    rulesRow r.id r.severity.text (if r.enabled then "yes" else "no") r.origin r.description
  Report.lines <|
    ["Rules (" ++ preset.title ++ " preset):", "",
      rulesRow "Id" (padded 9 "Severity") "Enabled" "Origin" "Description",
      String.ofList (List.replicate 100 '-')] ++
    l.rules.map row ++
    ["", "Presets:",
      "  recommended  - embedded rules as shipped (default)",
      "  strict       - every embedded rule, including disabled ones",
      "  minimal      - critical and blocker rules only",
      "",
      "Disable a rule or change its severity in dispatcher-lint.toml, e.g.:",
      "  [rules.statfileslevel-minimum]",
      "  enabled = false"]

/-! ### A configuration to start from -/

/-- The configuration file that is written. -/
def startingName : String :=
  "dispatcher-lint.toml"

/-- A configuration to start from. -/
def startingConfig : String :=
  Report.lines [
    "# dispatcher-lint configuration",
    "",
    "[analyzer]",
    "# Repository root (default: current directory)",
    "# repo = \"./dispatcher/src\"",
    "",
    "# Entry files, relative to the repository root",
    "dispatcher_entry = \"conf.dispatcher.d/dispatcher.any\"",
    "httpd_entry = \"conf/httpd.conf\"",
    "",
    "# Directory that relative httpd Include paths resolve against",
    "# server_root = \".\"",
    "",
    "# full | partial | minimized",
    "verbosity = \"partial\"",
    "",
    "# Folder of additional *.json rule files, merged in file-name order",
    "# rules_folder = \"dispatcher-rules\"",
    "",
    "# Guards against runaway include expansion",
    "max_include_depth = 50",
    "max_lines = 1000000",
    "",
    "# Rule overrides",
    "# Each rule can be enabled/disabled and have its severity overridden",
    "",
    "# [rules.statfileslevel-minimum]",
    "# enabled = false",
    "",
    "# [rules.default-filter-deny-rules]",
    "# severity = \"CRITICAL\""]

/-- What is said after the configuration has been written. -/
def startingText : String :=
  Report.lines ["Created dispatcher-lint.toml", "", "Next steps:",
    "  1. Point dispatcher_entry and httpd_entry at your entry files",
    "  2. Run: dispatcher-lint check"]

/-! ### Commands -/

namespace Command

/-- Analyzes a repository and writes the report. The exit status says whether a
violation reaches the given severity. -/
def checkEffect (t : FileTree) (env : Environment) (config? : Option String) (s : CheckSettings) :
    Effect :=
  match ConfigFile.load t env (s.path?.getD ".") config? with
  | .error _ => .fail 1
  | .ok config =>
    let folder? := s.rulesFolder?.or config.analyzer.rulesFolder
    let request : Analysis.Request := {
      config
      rules := s.preset.rules.configured t folder? config
      repo? := s.path?
      farmFile? := s.dispatcher?
      httpdFile? := s.httpd?
      serverRoot? := s.serverRoot?
      verbosity? := s.verbosity? }
    match request.run t with
    | .error _ => .fail 2
    | .ok a =>
      { exit := if Report.hasAtLeast a.violations s.failOn then 1 else 0
        output := Report.render s.format a.verbosity a.violations }

/-- Lists the rules. -/
def listEffect (t : FileTree) (env : Environment) (config? rulesFolder? : Option String)
    (preset : Preset) : Effect :=
  match ConfigFile.load t env "." config? with
  | .error _ => .fail 1
  | .ok config =>
    let folder? := rulesFolder?.or config.analyzer.rulesFolder
    { output := rulesText preset (preset.rules.configured t folder? config) }

/-- Writes a configuration to start from, over an existing one only by force. -/
def initEffect (t : FileTree) (force : Bool) : Effect :=
  if (t.contains startingName && !force) || t.isDir startingName then .fail 1
  else { output := startingText, written := [(startingName, startingConfig)] }

/-- What a command does. -/
def run (c : Command) (t : FileTree) (env : Environment) (config? : Option String) : Effect :=
  match c with
  | .check settings => checkEffect t env config? settings
  | .listRules rulesFolder? preset => listEffect t env config? rulesFolder? preset
  | .init force => initEffect t force

/-- The directory whose configuration counts. -/
def directory : Command → String
  | .check s => s.path?.getD "."
  | _ => "."

/-- The paths that the command is given. -/
def paths : Command → List String
  | .check s => s.path?.toList ++ s.rulesFolder?.toList
  | .listRules rulesFolder? _ => rulesFolder?.toList
  | .init _ => []

end Command

/-- The name and the version of the program. -/
def versionText : String :=
  "dispatcher-lint 0.4.2\n"

/-- What a command line does. -/
def CommandLine.run (t : FileTree) (env : Environment) (words : List String) : Effect :=
  match CommandLine.read words with
  | .ok i => i.command.run t env i.config?
  | .error .version => { output := versionText }
  | .error .usage => .fail 2

/-- The paths outside the current directory that a command line looks at, as far
as the known files tell. -/
def CommandLine.places (t : FileTree) (env : Environment) (words : List String) : List String :=
  match CommandLine.read words with
  | .error _ => []
  | .ok i =>
    let dir := i.command.directory
    let configured :=
      match ConfigFile.load t env dir i.config? with
      | .ok c => c.analyzer.repo :: c.analyzer.rulesFolder.toList
      | .error _ => []
    i.command.paths ++ i.config?.toList ++ ConfigFile.projectCandidates t dir ++
      (ConfigFile.globalCandidate? env).toList ++ configured

end ProxyLint
