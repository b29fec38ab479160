import ProxyLint.FileTree
import ProxyLint.Rule.File

/-!
# Gathering rules

Rules come from several sources, which are merged one after the other. A source
that cannot be used is skipped, and its name remembered.

## Main definitions

* `ProxyLint.Gathering` — the rules so far and the skipped sources.
* `ProxyLint.Gathering.addText`, `addFile`, `addFolder` — merge one source.
* `ProxyLint.Gathering.ruleFiles?` — the rule files of a folder.
* `ProxyLint.RuleList.load` — merges files and folders in the order of their names.
-/

set_option relaxedAutoImplicit false
set_option autoImplicit false

namespace ProxyLint

/-- The rules so far and the names of the sources that were skipped. -/
structure Gathering where
  /-- The rules so far. -/
  list : RuleList
  /-- The sources that were skipped, in order. -/
  skipped : List String := []
  deriving DecidableEq, Repr, Inhabited

namespace Gathering

/-- Merges a source, or skips it if it cannot be used. -/
def add (g : Gathering) (origin : String) (source : Except RuleFile.Error RuleList) : Gathering :=
  match source with
  | .ok l => { g with list := g.list.merge l }
  | .error _ => { g with skipped := g.skipped ++ [origin] }

/-- A source whose text may be unreadable. -/
def source (origin : String) (text? : Option String) : Except RuleFile.Error RuleList :=
  match text? with
  | some text => RuleFile.read origin text
  | none => .error .unreadable

/-- Merges a text, which may be unreadable. -/
def addText (g : Gathering) (origin : String) (text? : Option String) : Gathering :=
  g.add origin (source origin text?)

/-- The name of a source: its file name, or its path if it has none. -/
def originOf (path : String) : String :=
  (Path.fileName? path).getD path

/-- Merges a file. -/
def addFile (g : Gathering) (t : FileTree) (path : String) : Gathering :=
  g.addText (originOf path) (t.read? path)

/-- The order of paths by their file names alone. -/
def nameLe (a b : String) : Bool :=
  match Path.fileName? a, Path.fileName? b with
  | none, _ => true
  | some _, none => false
  | some x, some y => !decide (y < x)

/-- The regular files directly inside a folder with the extension `json` in any
letter case, in the order of their names; `none` if there is no such folder. -/
def ruleFiles? (t : FileTree) (folder : String) : Option (List String) :=
  (t.find? folder).map fun n =>
    let files := n.entries.filter fun (name, entry) =>
      !entry.isDir && (Path.extension? name).any fun e => Text.sameLetters e "json"
    (files.map fun (name, _) => Path.join folder name).mergeSort nameLe

/-- Merges the rule files of a folder. -/
def addFolder (g : Gathering) (t : FileTree) (folder : String) : Gathering :=
  match ruleFiles? t folder with
  | some files => files.foldl (fun g file => g.addFile t file) g
  | none => { g with skipped := g.skipped ++ [folder] }

/-- Merges a file or the rule files of a folder. -/
def addPath (g : Gathering) (t : FileTree) (path : String) : Gathering :=
  if t.isDir path then g.addFolder t path else g.addFile t path

end Gathering

/-- The list with files and folders merged into it in the order of their names. -/
def RuleList.load (l : RuleList) (t : FileTree) (paths : List String) : RuleList :=
  let start : Gathering := { list := l }
  ((paths.mergeSort Gathering.nameLe).foldl (fun g path => g.addPath t path) start).list

end ProxyLint
