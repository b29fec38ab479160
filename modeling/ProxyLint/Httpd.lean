import ProxyLint.Source
import ProxyLint.Text

/-!
# Sections and directives

A configuration of the web server is a tree of sections, numbered in the order
in which they are opened; section 0 is the whole configuration. A section knows
its parent and its children by number. A child always has a higher number than
its parent, so walks up and down the tree end.

## Main definitions

* `ProxyLint.Directive`, `ProxyLint.Section`, `ProxyLint.HttpdConfig`.
* `ProxyLint.HttpdConfig.ancestors` — a section and those around it.
* `ProxyLint.HttpdConfig.descendants` — the sections inside a section.
* `ProxyLint.HttpdConfig.effective?` — the directive that counts in a section.
-/

set_option relaxedAutoImplicit false
set_option autoImplicit false

namespace ProxyLint

/-- A directive with its arguments. -/
structure Directive where
  /-- The name as written. -/
  name : String
  /-- The arguments without their quotes. -/
  arguments : List String
  /-- Where the directive is written. -/
  source : Source
  deriving DecidableEq, Repr, Inhabited

namespace Directive

/-- Whether the directive has a name, up to letter case. -/
def isNamed (d : Directive) (name : String) : Bool :=
  Text.sameLetters d.name name

/-- Equality of names and arguments, wherever the directives are written. -/
def sameText (a b : Directive) : Bool :=
  a.name == b.name && a.arguments == b.arguments

/-- The directive on one line. -/
def text (d : Directive) : String :=
  Text.joinWith " " (d.name :: d.arguments)

end Directive

/-- The kinds of sections. -/
inductive SectionKind where
  /-- The whole configuration. -/
  | root
  | virtualHost
  | directory
  | location
  | files
  | ifModule
  /-- Any other section. -/
  | other
  deriving DecidableEq, Repr, Inhabited

/-- The kind of a section with the given tag, up to letter case. -/
def SectionKind.ofTag (tag : String) : SectionKind :=
  match Text.lower tag with
  | "virtualhost" => .virtualHost
  | "directory" | "directorymatch" => .directory
  | "location" | "locationmatch" => .location
  | "files" | "filesmatch" => .files
  | "ifmodule" => .ifModule
  | _ => .other

/-- A section. -/
structure Section where
  /-- The kind. -/
  kind : SectionKind
  /-- The tag as written; empty for the whole configuration. -/
  tag : String
  /-- The arguments of the opener. -/
  arguments : List String
  /-- The section around this one. -/
  parent? : Option Nat
  /-- Where the section is opened. -/
  source : Source
  /-- The sections directly inside, in order. -/
  children : Array Nat := #[]
  /-- The directives directly inside, in order. -/
  directives : Array Directive := #[]
  deriving DecidableEq, Repr, Inhabited

/-- The last directive of a name directly inside the section. -/
def Section.directive? (s : Section) (name : String) : Option Directive :=
  s.directives.toList.reverse.find? fun d => d.isNamed name

/-- The sections of a configuration by number. -/
structure HttpdConfig where
  /-- The sections in the order in which they are opened. -/
  sections : Array Section
  deriving DecidableEq, Repr, Inhabited

namespace HttpdConfig

/-- The configuration with nothing in it. -/
def ofRoot (source : Source) : HttpdConfig :=
  ⟨#[{ kind := .root, tag := "", arguments := [], parent? := none, source }]⟩

/-- The number of sections. -/
def size (c : HttpdConfig) : Nat :=
  c.sections.size

/-- The section of a number. -/
def get? (c : HttpdConfig) (i : Nat) : Option Section :=
  c.sections[i]?

/-- Opens a section inside section `parent`; its number is the old size. -/
def addSection (c : HttpdConfig) (parent : Nat) (tag : String) (arguments : List String)
    (source : Source) : HttpdConfig :=
  let new : Section :=
    { kind := .ofTag tag, tag, arguments, parent? := some parent, source }
  let id := c.size
  ⟨(c.sections.modify parent fun s => { s with children := s.children.push id }).push new⟩

/-- Adds a directive to a section. -/
def addDirective (c : HttpdConfig) (i : Nat) (d : Directive) : HttpdConfig :=
  ⟨c.sections.modify i fun s => { s with directives := s.directives.push d }⟩

/-- The section around section `i`. -/
def parent? (c : HttpdConfig) (i : Nat) : Option Nat :=
  (c.get? i).bind Section.parent?

/-- The sections directly inside section `i`. -/
def children (c : HttpdConfig) (i : Nat) : List Nat :=
  match c.get? i with
  | some s => s.children.toList
  | none => []

/-- Section `i` and those around it, innermost first. -/
def ancestors (c : HttpdConfig) (i : Nat) : List Nat :=
  match c.parent? i with
  | some p => if p < i then i :: ancestors c p else [i]
  | none => [i]
termination_by i

/-- The sections inside section `i`, depth first. -/
def descendants (c : HttpdConfig) (i : Nat) : List Nat :=
  (c.children i).flatMap fun j =>
    if i < j ∧ j < c.size then j :: descendants c j else []
termination_by c.size - i

/-- The directive of a name that counts in section `i`: the last one in the
closest section that has one. -/
def effective? (c : HttpdConfig) (i : Nat) (name : String) : Option Directive :=
  (c.ancestors i).findSome? fun j => (c.get? j).bind fun s => s.directive? name

end HttpdConfig

end ProxyLint
