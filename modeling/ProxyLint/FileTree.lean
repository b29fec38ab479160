import ProxyLint.Path

/-!
# File trees

A finite tree of directories and files with a current directory. Looking up a
path walks it piece by piece, so `a/../b` needs a directory `a`, and a slash
after a file leads nowhere.

## Main definitions

* `ProxyLint.FileTree` — a tree below the root and a current directory.
* `ProxyLint.FileTree.find?` — the node a path leads to.
* `ProxyLint.FileTree.read?` — the text of a file.
* `ProxyLint.FileTree.filesBelow` — the regular files below a directory.
* `ProxyLint.FileTree.insert` — the tree with one more file or directory.
-/

set_option relaxedAutoImplicit false
set_option autoImplicit false

namespace ProxyLint

/-- A file or a directory. -/
inductive Node where
  /-- A regular file: its text, or `none` if its bytes are no UTF-8 text. -/
  | file (text : Option String)
  /-- A directory with named entries. -/
  | dir (entries : List (String × Node))
  deriving Inhabited

namespace Node

/-- Whether the node is a directory. -/
def isDir : Node → Bool
  | .dir _ => true
  | .file _ => false

/-- The entries of a directory; a file has none. -/
def entries : Node → List (String × Node)
  | .dir es => es
  | .file _ => []

/-- The entry of a given name. -/
def child? (n : Node) (name : String) : Option Node :=
  n.entries.lookup name

/-- The node below `n` that a chain of names leads to. -/
def at? (n : Node) : List String → Option Node
  | [] => some n
  | name :: rest =>
    match n.child? name with
    | some c => c.at? rest
    | none => none

/-- Replaces the entry of a name, or adds it at the end. -/
def putEntry (name : String) (n : Node) : List (String × Node) → List (String × Node)
  | [] => [(name, n)]
  | (k, v) :: rest => if k == name then (name, n) :: rest else (k, v) :: putEntry name n rest

/-- Puts a node at the end of a chain of names, making directories on the way. -/
def insert (n : Node) (new : Node) : List String → Node
  | [] => new
  | name :: rest =>
    let below := (n.child? name).getD (.dir [])
    .dir (putEntry name (below.insert new rest) n.entries)

mutual

/-- Everything below a node, each with its path and whether it is a directory. -/
def contents (path : String) : Node → List (String × Bool)
  | .file _ => []
  | .dir es => contentsOf path es

/-- Everything at or below the entries of a directory. -/
def contentsOf (path : String) : List (String × Node) → List (String × Bool)
  | [] => []
  | (name, n) :: rest =>
    let here := Path.join path name
    (here, n.isDir) :: contents here n ++ contentsOf path rest

end

end Node

/-- A tree of files with a current directory. -/
structure FileTree where
  /-- The root directory. -/
  root : Node
  /-- The names that lead from the root to the current directory. -/
  here : List String
  deriving Inhabited

namespace FileTree

/-- One step of a walk: from a place along a piece of a path. -/
def step (t : FileTree) (place : List String) (piece : String) : Option (List String) :=
  match t.root.at? place with
  | some (.dir es) =>
    if piece == "" || piece == "." then some place
    else if piece == ".." then some place.dropLast
    else if (es.lookup piece).isSome then some (place ++ [piece])
    else none
  | _ => none

/-- The names that lead from the root to what `path` denotes, if it exists. -/
def locate? (t : FileTree) (path : String) : Option (List String) :=
  if path.isEmpty then none
  else
    let start := if Path.isAbsolute path then [] else t.here
    (Text.fields '/' path).foldlM t.step start

/-- The node a path leads to. -/
def find? (t : FileTree) (path : String) : Option Node :=
  (t.locate? path).bind t.root.at?

/-- Whether a path leads to anything. -/
def contains (t : FileTree) (path : String) : Bool :=
  (t.find? path).isSome

/-- Whether a path leads to a directory. -/
def isDir (t : FileTree) (path : String) : Bool :=
  match t.find? path with
  | some n => n.isDir
  | none => false

/-- Whether a path leads to a regular file. -/
def isFile (t : FileTree) (path : String) : Bool :=
  match t.find? path with
  | some n => !n.isDir
  | none => false

/-- The text of a file; nothing for a directory and for bytes that are no text. -/
def read? (t : FileTree) (path : String) : Option String :=
  match t.find? path with
  | some (.file text) => text
  | _ => none

/-- The names in a directory. -/
def names (t : FileTree) (path : String) : List String :=
  match t.find? path with
  | some n => n.entries.map Prod.fst
  | none => []

/-- Everything below a directory, each with its path and whether it is a
directory. -/
def below (t : FileTree) (path : String) : List (String × Bool) :=
  match t.find? path with
  | some n => n.contents path
  | none => []

/-- The regular files below a directory, in path order. -/
def filesBelow (t : FileTree) (path : String) : List String :=
  Path.sort ((t.below path).filterMap fun (p, isDirectory) => if isDirectory then none else some p)

/-- The absolute names of a path that need not exist. -/
def target (t : FileTree) (path : String) : List String :=
  let start := if Path.isAbsolute path then [] else t.here
  (Text.fields '/' path).foldl (fun place piece =>
    if piece == "" || piece == "." then place
    else if piece == ".." then place.dropLast
    else place ++ [piece]) start

/-- The tree with a node at `path`, and with directories on the way to it. -/
def insert (t : FileTree) (path : String) (n : Node) : FileTree :=
  { t with root := t.root.insert n (t.target path) }

/-- The absolute path of an existing path, without `.` and `..`. -/
def canonical? (t : FileTree) (path : String) : Option String :=
  (t.locate? path).map fun names => "/" ++ Text.joinWith "/" names

end FileTree

end ProxyLint
