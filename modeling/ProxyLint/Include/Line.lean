import ProxyLint.Rule.Kind

/-!
# Logical lines and include directives

How a file is cut into logical lines, and how the include directives of a line
are found. Both dialects number physical lines from 1. In the web server's
dialect a backslash at the end of a line continues it, and the whole run keeps
the number of its first line.

## Main definitions

* `ProxyLint.Include.logicalLines` — the numbered logical lines of a text.
* `ProxyLint.Include.pieces` — a line of nested labels, cut at its includes.
* `ProxyLint.Include.directive?` — the include directive of a web server line.
-/

set_option relaxedAutoImplicit false
set_option autoImplicit false

namespace ProxyLint.Include

/-- The token that includes a file between labels. -/
def includeToken : List Char :=
  "$include".toList

/-- A line that is nothing but a relative path upwards stands for an include of
that path. -/
def linkLine (dialect : Dialect) (line : List Char) : List Char :=
  if "../".toList.isPrefixOf (Text.stripStart line) then
    match dialect with
    | .any => includeToken ++ " \"".toList ++ Text.strip line ++ ['"']
    | .httpd => "Include ".toList ++ Text.strip line
  else line

/-- The physical lines with their numbers, starting at 1. -/
def numberedLines (text : String) : List (Nat × List Char) :=
  ((Text.lineList text.toList).zipIdx 1).map fun (line, n) => (n, line)

/-- The body of a line and whether a backslash continues it. -/
def continuation (line : List Char) : List Char × Bool :=
  match Text.beforeLast? '\\' (Text.stripEnd line) with
  | some body => (body, true)
  | none => (Text.stripEnd line, false)

/-- A run of continued lines. -/
structure Run where
  /-- The number of its first line. -/
  number : Nat
  /-- What each line adds to it, the last one first. -/
  parts : List (List Char)
  deriving DecidableEq, Repr, Inhabited

/-- The logical line that a run stands for. -/
def Run.line (r : Run) : Nat × List Char :=
  (r.number, r.parts.reverse.flatten)

/-- Joins continued lines. `pending` is the run that the next line continues;
one that is still pending at the end is a line of its own. -/
def joinContinued (pending : Option Run) : List (Nat × List Char) → List (Nat × List Char)
  | [] => pending.toList.map Run.line
  | (n, line) :: rest =>
    let (body, continues) := continuation line
    let joined : Run :=
      match pending with
      | some r => { r with parts := (' ' :: Text.strip body) :: r.parts }
      | none => ⟨n, [Text.stripEnd body]⟩
    if continues then joinContinued (some joined) rest
    else joined.line :: joinContinued none rest

/-- The logical lines of a text with the numbers of their first physical lines. -/
def logicalLines (dialect : Dialect) (linkText : Bool) (text : String) :
    List (Nat × List Char) :=
  let physical :=
    match numberedLines text with
    | (n, line) :: rest => (n, if linkText then linkLine dialect line else line) :: rest
    | [] => []
  match dialect with
  | .any => physical
  | .httpd => joinContinued none physical

/-- Whether a trimmed line is neither empty nor a comment. -/
def isMeaningful (line : List Char) : Bool :=
  !line.isEmpty && line.head? != some '#'

/-! ### Includes between labels -/

/-- A piece of a line of nested labels. -/
inductive Piece where
  /-- Text without an include, trimmed. -/
  | text (content : List Char)
  /-- The target of an include, trimmed; it may be empty. -/
  | target (path : List Char)
  deriving DecidableEq, Repr, Inhabited

/-- The target that follows an include token and what follows the target. A
quoted target ends at its quote, or with the line if the quote is missing; any
other takes the rest of the line. -/
def splitTarget (cs : List Char) : List Char × List Char :=
  match cs with
  | '"' :: quoted =>
    match Text.breakOn? ['"'] quoted with
    | some (target, rest) => (Text.strip target, rest)
    | none => (Text.strip quoted, [])
  | _ => (Text.strip cs, [])

/-- What follows the target of an include is no longer than the text. -/
theorem splitTarget_length (cs : List Char) : (splitTarget cs).2.length ≤ cs.length := by
  unfold splitTarget
  split
  · split
    · next h =>
      have := Text.breakOn?_length h
      simp only [List.length_cons, List.length_nil] at *
      omega
    · simp
  · simp

/-- The pieces of a trimmed line in order. Nothing is read after an include
without a target. -/
def pieces (cs : List Char) : List Piece :=
  if cs.isEmpty then []
  else
    match h : Text.breakOn? includeToken cs with
    | none => [.text cs]
    | some (before, after) =>
      let front := Text.strip before
      let cut := splitTarget (Text.stripStart after)
      let rest := if cut.1.isEmpty then [] else pieces (Text.strip cut.2)
      (if front.isEmpty then [] else [.text front]) ++ .target cut.1 :: rest
termination_by cs.length
decreasing_by
  have h1 := Text.breakOn?_length h
  have h2 := Text.strip_length_le (splitTarget (Text.stripStart after)).2
  have h3 := splitTarget_length (Text.stripStart after)
  have h4 := Text.stripStart_length_le after
  have h5 : includeToken.length = 8 := rfl
  omega

/-! ### Includes of the web server -/

/-- The text inside a pair of equal quotes, or the text itself. -/
def unquotePair (cs : List Char) : List Char :=
  match cs with
  | q :: rest =>
    if q == '"' || q == '\'' then (Text.beforeLast? q rest).getD cs else cs
  | [] => []

/-- An include directive of the web server. -/
structure Directive where
  /-- Whether it may match nothing. -/
  isOptional : Bool
  /-- The path or pattern; it may be empty. -/
  target : List Char
  deriving DecidableEq, Repr, Inhabited

/-- The include directive that a trimmed line consists of. -/
def directive? (cs : List Char) : Option Directive :=
  let keyword := cs.takeWhile fun c => !Text.isBlank c
  let rest := cs.drop keyword.length
  let named (name : String) : Bool := Text.sameLetters (String.ofList keyword) name
  if named "IncludeOptional" then some ⟨true, unquotePair (Text.strip rest)⟩
  else if named "Include" then some ⟨false, unquotePair (Text.strip rest)⟩
  else none

end ProxyLint.Include
