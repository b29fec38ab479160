import ProxyLint.Noted

/-!
# Tokens of nested labels

A line of nested labels holds labels, values and braces. A label is a slash with
the word after it, a value a word or a quoted run. A word ends at a brace, a
quote, a `#` or an ASCII blank; a reference `${…}` inside it is kept whole. A `#`
outside a word ends the line.

## Main definitions

* `ProxyLint.Any.Symbol` — the kinds of tokens, spelled as written.
* `ProxyLint.Any.Token` — a symbol at a place.
* `ProxyLint.Any.scan` — the symbols of a line.
* `ProxyLint.Any.tokens` — the tokens of a sequence of lines.
-/

set_option relaxedAutoImplicit false
set_option autoImplicit false

namespace ProxyLint.Any

/-- A token without its place. -/
inductive Symbol where
  /-- A label, without its slash. -/
  | label (name : String)
  /-- A word or a quoted run, as written. -/
  | value (text : String)
  /-- An opening brace. -/
  | opening
  /-- A closing brace. -/
  | closing
  deriving DecidableEq, Repr, Inhabited

/-- A symbol at a place. -/
structure Token where
  /-- The symbol. -/
  symbol : Symbol
  /-- The line it stands on. -/
  source : Source
  deriving DecidableEq, Repr, Inhabited

/-- Whether a character ends a word. -/
def endsWord (c : Char) : Bool :=
  c == '{' || c == '}' || c == '"' || c == '\'' || c == '#' || Text.isAsciiBlank c

/-- Whether a character opens a reference `${…}`. -/
def opensReference (c : Char) (rest : List Char) : Bool :=
  c == '$' && rest.head? == some '{'

/-- Splits a word off the front. `inside` says that the front lies in a
reference, which ends after its brace. -/
def splitWord (inside : Bool) : List Char → List Char × List Char
  | [] => ([], [])
  | c :: rest =>
    if inside then
      let cut := splitWord (c != '}') rest
      (c :: cut.1, cut.2)
    else if !opensReference c rest && endsWord c then ([], c :: rest)
    else
      let cut := splitWord (opensReference c rest) rest
      (c :: cut.1, cut.2)

/-- A word and what follows it make up the text. -/
theorem splitWord_append (inside : Bool) (cs : List Char) :
    (splitWord inside cs).1 ++ (splitWord inside cs).2 = cs := by
  induction cs generalizing inside with
  | nil => rfl
  | cons c rest ih =>
    unfold splitWord
    split
    · simp [ih]
    · split
      · rfl
      · simp [ih]

/-- What follows a word is no longer than the text. -/
theorem splitWord_length (inside : Bool) (cs : List Char) :
    (splitWord inside cs).2.length ≤ cs.length := by
  have h := congrArg List.length (splitWord_append inside cs)
  simp only [List.length_append] at h
  omega

/-- The symbols of a line, and the quoted run at its end that lacks its closing
quote. -/
structure Scan where
  /-- The symbols in order. -/
  symbols : List Symbol := []
  /-- The run without a closing quote. -/
  unmatched? : Option (List Char) := none
  deriving DecidableEq, Repr, Inhabited

/-- Puts a symbol in front. -/
def Scan.cons (s : Symbol) (scan : Scan) : Scan :=
  { scan with symbols := s :: scan.symbols }

/-- The symbols of a line. -/
def scan (cs : List Char) : Scan :=
  match cs with
  | [] => {}
  | c :: rest =>
    if Text.isBlank c then scan rest
    else if c == '#' then {}
    else if c == '{' then (scan rest).cons .opening
    else if c == '}' then (scan rest).cons .closing
    else if c == '"' || c == '\'' then
      match h : Text.breakOn? [c] rest with
      | some (inner, after) =>
        have : after.length < (c :: rest).length := by
          have := Text.breakOn?_length h
          simp only [List.length_cons, List.length_nil] at *
          omega
        (scan after).cons (.value (String.ofList (c :: inner ++ [c])))
      | none =>
        ⟨[.value (String.ofList (Text.stripEnd (c :: rest)))], some (c :: rest)⟩
    else if c == '/' then
      let cut := splitWord false rest
      have : cut.2.length < (c :: rest).length :=
        Nat.lt_succ_of_le (splitWord_length false rest)
      (scan cut.2).cons (.label (String.ofList cut.1))
    else
      let cut := splitWord (opensReference c rest) rest
      have : cut.2.length < (c :: rest).length :=
        Nat.lt_succ_of_le (splitWord_length _ rest)
      (scan cut.2).cons (.value (String.ofList (c :: cut.1)))
termination_by cs.length
decreasing_by
  all_goals simp only [List.length_cons] at *; omega

/-- The tokens of one line. -/
def lineTokens (line : Line) : Noted (List Token) := do
  let found := scan line.content.toList
  match found.unmatched? with
  | some run =>
    note .anyUnmatchedQuote ("missing closing quote in " ++ String.ofList run) line.source
  | none => pure ()
  return found.symbols.map fun s => ⟨s, line.source⟩

/-- The tokens of a sequence of lines. -/
def tokens : List Line → Noted (List Token)
  | [] => pure []
  | line :: rest => do
    let first ← lineTokens line
    let others ← tokens rest
    return first ++ others

/-- The text of a value without its quotes. A missing closing quote does not
matter. -/
def unquote (text : String) : String :=
  let cs := Text.strip text.toList
  match cs with
  | q :: rest =>
    if q == '"' || q == '\'' then String.ofList ((Text.beforeLast? q rest).getD rest)
    else String.ofList cs
  | [] => ""

end ProxyLint.Any
