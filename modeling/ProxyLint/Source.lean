import ProxyLint.Text

/-!
# Sources

Where a piece of configuration was written: the file, the line, and the file
that included that file.

## Main definitions

* `ProxyLint.Source` — a place in the configuration, as far as it is known.
* `ProxyLint.Sourced` — a value together with the place it was written.
* `ProxyLint.Line` — a logical line of configuration.
-/

set_option relaxedAutoImplicit false
set_option autoImplicit false

namespace ProxyLint

/-- A place in the configuration, as far as it is known. -/
structure Source where
  /-- The file, named from the repository root. -/
  file? : Option String
  /-- The line in the file, counted from 1. -/
  line? : Option Nat
  /-- The file that included this one. -/
  includedFrom? : Option String
  deriving DecidableEq, Repr, Inhabited

namespace Source

/-- The source of which nothing is known. -/
def unknown : Source :=
  ⟨none, none, none⟩

/-- Line `line` of a file. There is no line 0, so it counts as unknown. -/
def ofLine (file : String) (line : Nat) (includedFrom? : Option String) : Source :=
  ⟨some file, if line = 0 then none else some line, includedFrom?⟩

/-- The source as it is shown in front of a message. -/
def text (s : Source) : String :=
  let place :=
    match s.file?, s.line? with
    | some file, some line => file ++ ":" ++ Text.ofNat line
    | some file, none => file
    | none, _ => "<unknown>"
  match s.includedFrom? with
  | some parent => place ++ " (included from " ++ parent ++ ")"
  | none => place

end Source

/-- A value together with the place it was written. -/
structure Sourced (α : Type) where
  /-- The value. -/
  value : α
  /-- Where it was written. -/
  source : Source
  deriving DecidableEq, Repr, Inhabited

/-- Equality of values, whatever their sources. -/
def Sourced.sameValue {α : Type} [BEq α] (a b : Sourced α) : Bool :=
  a.value == b.value

/-- A logical line of configuration. -/
structure Line where
  /-- The text without the blanks at its ends. -/
  content : String
  /-- Where the line was written. -/
  source : Source
  deriving DecidableEq, Repr, Inhabited

end ProxyLint
