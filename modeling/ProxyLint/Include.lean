import ProxyLint.Glob
import ProxyLint.Include.Failure
import ProxyLint.Include.Line
import ProxyLint.Path.Raw
import ProxyLint.Violation

/-!
# Include resolution

An entry file becomes one sequence of logical lines: every include is replaced,
where it stands, by the lines of the files it names. Each line keeps the place
where it was written.

Two limits bound the expansion. `Limits.depth` is the number of included files
that may be open at once, and the recursion runs on what is left of it;
`Limits.lines` is the number of lines.

## Main definitions

* `ProxyLint.Include.Resolver` — the settings of an expansion.
* `ProxyLint.Include.Outcome` — an expansion so far, and why it stopped.
* `ProxyLint.Include.Resolver.resolveText` — the lines of a text.
* `ProxyLint.Include.Resolver.resolveFile` — the lines of an entry file.
-/

set_option relaxedAutoImplicit false
set_option autoImplicit false

namespace ProxyLint.Include

/-- Bounds on an expansion. -/
structure Limits where
  /-- How many included files may be open at once. -/
  depth : Nat := 50
  /-- How many lines there may be. -/
  lines : Nat := 1000000
  deriving DecidableEq, Repr, Inhabited

/-- The settings of an expansion. -/
structure Resolver where
  /-- The language of the files. -/
  dialect : Dialect
  /-- The directory of the repository. -/
  root : String
  /-- The directory, seen from the repository, that web server includes start at. -/
  serverRoot? : Option String := none
  /-- The bounds. -/
  limits : Limits := {}
  /-- Whether a first line that is a path upwards stands for an include. -/
  linkText : Bool := false
  deriving DecidableEq, Repr, Inhabited

/-- What an expansion has produced so far. -/
structure Expansion where
  /-- The lines in order. -/
  lines : Array Line := #[]
  /-- The faults in order. -/
  findings : Array Finding := #[]
  deriving DecidableEq, Repr, Inhabited

/-- An expansion that goes on, or one that has stopped. -/
inductive Outcome where
  /-- What has been produced so far. -/
  | done (e : Expansion)
  /-- Why the expansion stopped, and what had been produced by then. -/
  | failed (why : Failure) (e : Expansion)
  deriving DecidableEq, Repr, Inhabited

namespace Outcome

/-- Goes on with an expansion unless it has stopped. -/
def andThen (o : Outcome) (f : Expansion → Outcome) : Outcome :=
  match o with
  | .done e => f e
  | .failed why e => .failed why e

/-- The lines, or why there are none. -/
def lines (o : Outcome) : Except Failure (List Line) :=
  match o with
  | .done e => .ok e.lines.toList
  | .failed why _ => .error why

/-- The faults found until the expansion ended or stopped. -/
def findings (o : Outcome) : List Finding :=
  match o with
  | .done e => e.findings.toList
  | .failed _ e => e.findings.toList

end Outcome

/-- A step of an expansion. -/
abbrev Step := Expansion → Outcome

/-- Takes the steps for the members of a list in order. -/
def forEach {α : Type} (f : α → Step) : List α → Step
  | [], e => .done e
  | a :: rest, e => (f a e).andThen (forEach f rest)

/-- An include directive at a place. -/
structure Request where
  /-- The path or pattern as written. -/
  target : String
  /-- Whether it may match nothing. -/
  isOptional : Bool
  /-- The file that holds the directive. -/
  file : String
  /-- Where the directive stands. -/
  source : Source
  deriving DecidableEq, Repr, Inhabited

/-- The line number of the directive. -/
def Request.line (q : Request) : Nat :=
  q.source.line?.getD 0

namespace Resolver

variable (r : Resolver) (t : FileTree)

/-- The name of a file seen from the repository, as it is shown. -/
def nameOf (path : String) : String :=
  RawPath.nameFrom (Text.bytes r.root) (Text.bytes path)

/-- The directory that the includes of a file start at. -/
def baseOf (file : String) : String :=
  match r.dialect with
  | .any => (Path.parent? (Path.join r.root file)).getD ""
  | .httpd =>
    match r.serverRoot? with
    | some dir => Path.join r.root dir
    | none => r.root

/-- The path or pattern that an include looks up. -/
def lookupPath (q : Request) : String :=
  Path.normalize (Path.join (r.baseOf q.file) q.target)

/-- The existing paths that an include names, in path order; `none` if its
pattern is malformed. -/
def matches? (q : Request) : Option (List String) :=
  let full := r.lookupPath q
  if Glob.isPattern q.target then Glob.expand? t full
  else if t.contains full then some [full]
  else some []

/-- Adds a line. -/
def emit (content : List Char) (source : Source) : Step := fun e =>
  let e := { e with lines := e.lines.push ⟨String.ofList content, source⟩ }
  if e.lines.size > r.limits.lines then .failed (.linesExceeded r.limits.lines) e else .done e

/-- Records a fault. -/
def report (fault : Fault) (context : String) (source : Source) : Step := fun e =>
  .done { e with findings := e.findings.push ⟨fault, context, source⟩ }

/-- What happens when an include names nothing that exists. -/
def noMatch (q : Request) : Step :=
  match r.dialect with
  | .httpd =>
    if q.isOptional then .done
    else report .httpdIncludeFailed ("Include " ++ q.target ++ " matched no files") q.source
  | .any =>
    if Glob.isPattern q.target then
      report .anyIncludeNoMatch ("$include \"" ++ q.target ++ "\" matched no files") q.source
    else .failed (.notFound q.target q.file q.line)

/-- Expands one path that an include names. `expandFile` expands a regular file;
a directory stands for the regular files below it, or is an error. -/
def expandMatch (expandFile : String → Request → Step) (q : Request) (path : String) : Step :=
  if !t.isDir path then expandFile path q
  else
    match r.dialect with
    | .any => .failed (.isDirectory q.target q.file q.line)
    | .httpd => forEach (fun file => expandFile file q) (t.filesBelow path)

/-- Expands everything that an include names. -/
def expandRequest (expandFile : String → Request → Step) (q : Request) : Step :=
  match r.matches? t q with
  | none => .failed (.invalidPattern q.target)
  | some [] => r.noMatch q
  | some paths => forEach (r.expandMatch t expandFile q) paths

/-- Expands an include unless its target is empty. -/
def expandTarget (expandFile : String → Request → Step) (target : List Char)
    (isOptional : Bool) (file : String) (source : Source) : Step :=
  let q : Request := ⟨String.ofList target, isOptional, file, source⟩
  if target.isEmpty then .failed (.missingTarget file q.line)
  else r.expandRequest t expandFile q

/-- Expands a piece of a line of nested labels. -/
def expandPiece (expandFile : String → Request → Step) (file : String) (source : Source) :
    Piece → Step
  | .text content => r.emit content source
  | .target path => r.expandTarget t expandFile path false file source

/-- Expands one logical line. -/
def expandLine (expandFile : String → Request → Step) (file : String)
    (includedFrom? : Option String) (line : Nat × List Char) : Step :=
  let content := Text.strip line.2
  let source := Source.ofLine file line.1 includedFrom?
  if !isMeaningful content then .done
  else
    match r.dialect with
    | .any => forEach (r.expandPiece t expandFile file source) (pieces content)
    | .httpd =>
      match directive? content with
      | some d => r.expandTarget t expandFile d.target d.isOptional file source
      | none => r.emit content source

/-- Expands the text of a file. -/
def expandText (expandFile : String → Request → Step) (text file : String)
    (includedFrom? : Option String) : Step :=
  forEach (r.expandLine t expandFile file includedFrom?)
    (logicalLines r.dialect r.linkText text)

/-- Expands an included file when `depth` more files may be open at once. -/
def expandFile : Nat → String → Request → Step
  | 0, _, q => .failed (.depthExceeded r.limits.depth q.file q.line)
  | depth + 1, path, q =>
    match t.read? path with
    | none => .failed (.unreadable path)
    | some text => r.expandText t (expandFile depth) text (r.nameOf path) (some q.file)

/-- The lines of a text that stands for the file `file`. -/
def resolveText (text file : String) : Outcome :=
  r.expandText t (r.expandFile t r.limits.depth) text file none {}

/-- The lines of an entry file, which is named from the repository. -/
def resolveFile (entry : String) : Outcome :=
  let path := Path.join r.root entry
  if !t.isDir r.root then .failed (.repositoryMissing r.root) {}
  else if !t.isFile path then .failed (.entryMissing path) {}
  else
    match t.read? path with
    | none => .failed (.unreadable path) {}
    | some text => r.resolveText t text (r.nameOf (Path.normalize path))

end Resolver

end ProxyLint.Include
