import ProxyLint.Text

/-!
# Paths

A path is a text. Its *pieces* are what stands between the slashes, and some
pieces denote a *part*: the root, a leading `.`, a `..` or a name. Repeated
slashes and later `.` pieces denote nothing. Functions that cut a path keep the
spelling of what remains.

## Main definitions

* `ProxyLint.Path.parts` — the parts a path denotes.
* `ProxyLint.Path.normalize` — removal of `.` and of `..` after a name, on the
  text alone.
* `ProxyLint.Path.join`, `ProxyLint.Path.parent?`, `ProxyLint.Path.relativeTo?`.
* `ProxyLint.Path.le` — the order of paths, part by part.
-/

set_option relaxedAutoImplicit false
set_option autoImplicit false

namespace ProxyLint.Path

/-- What a piece of a path denotes. -/
inductive Part where
  /-- The slash at the front of an absolute path. -/
  | root
  /-- The `.` at the front of a relative path. -/
  | here
  /-- A step to the parent directory, `..`. -/
  | up
  /-- An ordinary name. -/
  | name (text : String)
  deriving DecidableEq, Repr, Inhabited

/-- How a part is written. -/
def Part.text : Part → String
  | .root => ""
  | .here => "."
  | .up => ".."
  | .name n => n

/-- What a piece denotes that is not at the front of its path. -/
def Part.ofInner? (piece : String) : Option Part :=
  if piece == "" || piece == "." then none
  else if piece == ".." then some .up
  else some (.name piece)

/-- A piece of a path together with what it denotes. -/
structure Piece where
  /-- The text between two slashes. -/
  text : String
  /-- The part it denotes, if any. -/
  part? : Option Part
  deriving DecidableEq, Repr, Inhabited

/-- The pieces of a path in order. -/
def pieces (path : String) : List Piece :=
  match Text.fields '/' path with
  | [] => []
  | first :: rest =>
    let inner := rest.map fun t => ⟨t, Part.ofInner? t⟩
    let front : Option Part :=
      if first == "" then (if rest.isEmpty then none else some .root)
      else if first == "." then some .here
      else Part.ofInner? first
    ⟨first, front⟩ :: inner

/-- The parts a path denotes. -/
def parts (path : String) : List Part :=
  (pieces path).filterMap Piece.part?

/-- Whether a path starts at the root. -/
def isAbsolute (path : String) : Bool :=
  Text.startsWith "/" path

/-! ### Writing -/

/-- The text with the given pieces; the root alone is written as one slash. -/
def spell (ps : List Piece) : String :=
  if ps.map Piece.part? == [some .root] then "/"
  else Text.joinWith "/" (ps.map Piece.text)

/-- The shortest text that denotes the given parts. -/
def ofParts (ps : List Part) : String :=
  if ps == [.root] then "/" else Text.joinWith "/" (ps.map Part.text)

/-- Appends `target` to `base`; an absolute `target` replaces it. -/
def join (base target : String) : String :=
  if isAbsolute target || base.isEmpty then target
  else if base.toList.getLast? == some '/' then base ++ target
  else base ++ "/" ++ target

/-! ### Normal form -/

/-- One step of normalisation. The parts so far are kept innermost first. -/
def collapse (done : List Part) : Part → List Part
  | .here => done
  | .up =>
    match done with
    | .name _ :: rest => rest
    | _ => .up :: done
  | p => p :: done

/-- The parts without `.` and without `..` after a name. -/
def normalParts (ps : List Part) : List Part :=
  (ps.foldl collapse []).reverse

/-- The path in normal form, computed on the text alone. -/
def normalize (path : String) : String :=
  ofParts (normalParts (parts path))

/-! ### Cutting -/

/-- The pieces up to the last one that denotes a part. -/
def dropIdleEnd (ps : List Piece) : List Piece :=
  (ps.reverse.dropWhile fun p => p.part?.isNone).reverse

/-- The path of the containing directory; the root has none. -/
def parent? (path : String) : Option String :=
  let used := dropIdleEnd (pieces path)
  match used.getLast? with
  | none => none
  | some last =>
    if last.part? == some .root then none
    else some (spell (dropIdleEnd used.dropLast))

/-- A path and at most `count` of the folders around it. -/
def ancestorsUpTo (path : String) : Nat → List String
  | 0 => [path]
  | count + 1 =>
    match parent? path with
    | some parent => path :: ancestorsUpTo parent count
    | none => [path]

/-- A path and the folders around it, from the inside out. A path has no more
folders around it than characters. -/
def ancestors (path : String) : List String :=
  ancestorsUpTo path path.length

/-- The last part, if it is a name. -/
def fileName? (path : String) : Option String :=
  match (parts path).getLast? with
  | some (.name n) => some n
  | _ => none

/-- What follows the last dot of the file name; a dot at its front does not
count. -/
def extension? (path : String) : Option String :=
  (fileName? path).bind fun n =>
    let back := n.toList.reverse
    match back.dropWhile (· != '.') with
    | _ :: _ :: _ => some (String.ofList (back.takeWhile (· != '.')).reverse)
    | _ => none

/-- The pieces that are left when the parts of `root` are taken off the front. -/
def strip? : List Part → List Piece → Option (List Piece)
  | [], ps => some ps
  | _ :: _, [] => none
  | r :: rs, ⟨_, none⟩ :: ps => strip? (r :: rs) ps
  | r :: rs, ⟨_, some q⟩ :: ps => if r = q then strip? rs ps else none

/-- The path as seen from `root`, if it lies below it. -/
def relativeTo? (root path : String) : Option String :=
  match parts root with
  | [] => some (spell (dropIdleEnd (pieces path)))
  | rs => (strip? rs (pieces path)).map fun ps =>
      spell (dropIdleEnd (ps.dropWhile fun p => p.part?.isNone))

/-! ### Order -/

/-- The place of a part's kind in the order of parts. -/
def Part.rank : Part → Nat
  | .root => 0
  | .here => 1
  | .up => 2
  | .name _ => 3

/-- The order of parts: by kind, and names by their characters. -/
def Part.lt (p q : Part) : Bool :=
  p.rank < q.rank || (p.rank == q.rank && decide (p.text < q.text))

/-- The lexicographic order on lists of parts. -/
def partsLe : List Part → List Part → Bool
  | [], _ => true
  | _ :: _, [] => false
  | p :: ps, q :: qs => p.lt q || (p == q && partsLe ps qs)

/-- The order of paths, part by part. -/
def le (a b : String) : Bool :=
  partsLe (parts a) (parts b)

/-- The paths in order. -/
def sort (paths : List String) : List String :=
  paths.mergeSort le

end ProxyLint.Path
