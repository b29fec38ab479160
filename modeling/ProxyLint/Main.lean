import ProxyLint.Command

/-!
# The program

Reads the files that a command line looks at, carries the command out on them,
and writes what it has to write. The current directory is read as a whole; of
other folders, those that the command line or the configuration names.
-/

set_option relaxedAutoImplicit false
set_option autoImplicit false

namespace ProxyLint

/-- Reads what is at a path, down to a depth. -/
def readNode : Nat → String → IO Node
  | 0, _ => return .dir []
  | depth + 1, path => do
    let place := (← IO.currentDir) / path
    if ← place.isDir then
      let entries ← place.readDir
      let nodes ← entries.toList.mapM fun e => do
        return (e.fileName, ← readNode depth (Path.join path e.fileName))
      return .dir nodes
    else
      try return .file (some (← IO.FS.readFile place))
      catch _ => return .file none

/-- Adds what is at the given paths to a tree, where there is anything. -/
def readPlaces (t : FileTree) (paths : List String) : IO FileTree :=
  paths.foldlM (fun t (path : String) => do
    let place := (← IO.currentDir) / path
    if t.contains path || !(← place.pathExists) then return t
    else return t.insert path (← readNode 64 path)) t

end ProxyLint

open ProxyLint

/-- Carries out a command line. A configuration that is read first may name the
folders that are read next. -/
def main (words : List String) : IO UInt32 := do
  let here := (Path.parts (← IO.currentDir).toString).filterMap fun
    | .name n => some n
    | _ => none
  let env : Environment := {
    configDir? := ← IO.getEnv "DISPATCHER_LINT_CONFIG_DIR"
    home? := ← IO.getEnv "HOME" }
  let start : FileTree := ⟨.dir [], here⟩
  let t := start.insert "." (← readNode 64 ".")
  let t ← readPlaces t (CommandLine.places t env words)
  let t ← readPlaces t (CommandLine.places t env words)
  let effect := CommandLine.run t env words
  effect.written.forM fun (path, text) => IO.FS.writeFile path text
  IO.print effect.output
  return effect.exit.toUInt32
