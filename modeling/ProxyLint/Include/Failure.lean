import ProxyLint.Text

/-!
# Failures of include resolution

What stops the reading of a configuration. No lines are returned then.

## Main definitions

* `ProxyLint.Include.Failure` — the causes.
* `ProxyLint.Include.Failure.message`, `code`, `help?` — how they are reported.
-/

set_option relaxedAutoImplicit false
set_option autoImplicit false

namespace ProxyLint.Include

/-- What stops the reading of a configuration. -/
inductive Failure where
  /-- The repository is no directory. -/
  | repositoryMissing (path : String)
  /-- The entry is no file. -/
  | entryMissing (path : String)
  /-- A file cannot be read as text. -/
  | unreadable (path : String)
  /-- A plain include target does not exist. -/
  | notFound (target file : String) (line : Nat)
  /-- An include target is a directory where a file is needed. -/
  | isDirectory (target file : String) (line : Nat)
  /-- An include has no target. -/
  | missingTarget (file : String) (line : Nat)
  /-- Includes are nested too deeply. -/
  | depthExceeded (limit : Nat) (file : String) (line : Nat)
  /-- There are too many lines. -/
  | linesExceeded (limit : Nat)
  /-- An include pattern is malformed. -/
  | invalidPattern (pattern : String)
  deriving DecidableEq, Repr, Inhabited

namespace Failure

/-- A message about an include at a line of a file. -/
def atLine (file : String) (line : Nat) (message : String) : String :=
  file ++ ":" ++ Text.ofNat line ++ ": " ++ message

/-- The failure in words. -/
def message : Failure → String
  | .repositoryMissing path => "repository root " ++ path ++ " does not exist"
  | .entryMissing path => "configuration file " ++ path ++ " not found"
  | .unreadable path => "failed to read " ++ path
  | .notFound target file line => atLine file line ("included file '" ++ target ++ "' not found")
  | .isDirectory target file line =>
    atLine file line ("include target '" ++ target ++ "' is a directory")
  | .missingTarget file line => atLine file line "include without a file name"
  | .depthExceeded limit file line =>
    atLine file line ("include depth limit of " ++ Text.ofNat limit ++ " exceeded")
  | .linesExceeded limit => "configuration line limit of " ++ Text.ofNat limit ++ " exceeded"
  | .invalidPattern pattern => "invalid include pattern '" ++ pattern ++ "'"

/-- The diagnostic code of the failure. -/
def code : Failure → String
  | .repositoryMissing .. => "dispatcher_lint::repository_missing"
  | .entryMissing .. => "dispatcher_lint::entry_missing"
  | .unreadable .. => "dispatcher_lint::io"
  | .notFound .. => "dispatcher_lint::include_not_found"
  | .isDirectory .. => "dispatcher_lint::include_is_directory"
  | .missingTarget .. => "dispatcher_lint::missing_include_value"
  | .depthExceeded .. => "dispatcher_lint::include_depth"
  | .linesExceeded .. => "dispatcher_lint::line_limit"
  | .invalidPattern .. => "dispatcher_lint::include_pattern"

/-- Advice on how to repair the configuration. -/
def help? : Failure → Option String
  | .entryMissing .. => some "pass the entry file relative to the repository root"
  | .isDirectory target .. =>
    some ("use a glob such as \"" ++ target ++ "/*.any\" to include the directory's files")
  | .depthExceeded .. => some "check for a file that includes itself, directly or indirectly"
  | _ => none

end Failure

end ProxyLint.Include
