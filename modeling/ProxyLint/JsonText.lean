import ProxyLint.JsonText.Number

/-!
# Documents

A document is read in two steps: its characters into tokens, and its tokens into
a tree, with the open arrays and objects on a stack. The tree keeps what only
matters where a value is used: numbers as written, texts that no Unicode text
spells, and members in order with repeated names.

## Main definitions

* `ProxyLint.JsonText.Tree` — a document as written.
* `ProxyLint.JsonText.tokens?` — the tokens of a text.
* `ProxyLint.JsonText.Parser` — the open arrays and objects while tokens are read.
* `ProxyLint.JsonText.read?` — the document that a text spells.
-/

set_option relaxedAutoImplicit false
set_option autoImplicit false

namespace ProxyLint.JsonText

/-! ### Quoted texts -/

/-- A unit of a quoted text. -/
inductive CodeUnit where
  /-- A character as it is. -/
  | plain (c : Char)
  /-- An escaped 16-bit code. -/
  | code (n : Nat)
  deriving DecidableEq, Repr, Inhabited

/-- The character of a one-letter escape. -/
def escaped? : Char → Option Char
  | '"' => some '"'
  | '\\' => some '\\'
  | '/' => some '/'
  | 'b' => some '\x08'
  | 'f' => some '\x0c'
  | 'n' => some '\n'
  | 'r' => some '\r'
  | 't' => some '\t'
  | _ => none

/-- Reads a quoted text up to its closing quote. -/
def quoted? : List Char → Option (List CodeUnit × List Char)
  | [] => none
  | '"' :: rest => some ([], rest)
  | '\\' :: 'u' :: a :: b :: c :: d :: rest =>
    match Text.hexNumber? [a, b, c, d], quoted? rest with
    | some n, some (units, after) => some (.code n :: units, after)
    | _, _ => none
  | '\\' :: e :: rest =>
    match escaped? e, quoted? rest with
    | some c, some (units, after) => some (.plain c :: units, after)
    | _, _ => none
  | c :: rest =>
    if c.toNat < 0x20 then none
    else (quoted? rest).map fun (units, after) => (.plain c :: units, after)

/-- What is left behind a quoted text is shorter. -/
theorem quoted?_length {cs rest : List Char} {units : List CodeUnit}
    (h : quoted? cs = some (units, rest)) : rest.length < cs.length := by
  fun_induction quoted? cs generalizing units rest with
  | case1 => cases h
  | case2 => cases h; simp
  | case3 a b c d tail n us after hq _ ih =>
    cases h
    have := ih hq
    simp only [List.length_cons]
    omega
  | case4 => cases h
  | case5 e tail _ c us after hq _ ih =>
    cases h
    have := ih hq
    simp only [List.length_cons]
    omega
  | case6 => cases h
  | case7 => cases h
  | case8 c tail _ _ _ _ ih =>
    simp only [Option.map_eq_some_iff, Prod.exists, Prod.mk.injEq] at h
    obtain ⟨us, after, hq, _, rfl⟩ := h
    have := ih hq
    simp only [List.length_cons]
    omega

/-- Whether a code is the first half of a pair. -/
def isHighHalf (n : Nat) : Bool :=
  0xD800 ≤ n && n < 0xDC00

/-- Whether a code is the second half of a pair. -/
def isLowHalf (n : Nat) : Bool :=
  0xDC00 ≤ n && n < 0xE000

/-- The characters that code units spell; a half of a pair alone spells none. -/
def characters? : List CodeUnit → Option (List Char)
  | [] => some []
  | .plain c :: rest => (characters? rest).map (c :: ·)
  | .code high :: .code low :: rest =>
    if isHighHalf high then
      if isLowHalf low then
        (characters? rest).map
          (Char.ofNat (0x10000 + (high - 0xD800) * 0x400 + (low - 0xDC00)) :: ·)
      else none
    else if isLowHalf high then none
    else (characters? (.code low :: rest)).map (Char.ofNat high :: ·)
  | .code n :: rest =>
    if isHighHalf n || isLowHalf n then none else (characters? rest).map (Char.ofNat n :: ·)

/-! ### Tokens -/

/-- A token of a document. -/
inductive Token where
  | openArray
  | closeArray
  | openObject
  | closeObject
  | comma
  | colon
  | null
  | bool (b : Bool)
  | number (x : Numeral)
  /-- A quoted text, or `none` if its escapes spell no text. -/
  | text (s : Option String)
  deriving DecidableEq, Repr, Inhabited

/-- A run of at least one digit and what follows it. -/
def digits? (cs : List Char) : Option (List Char × List Char) :=
  let ds := cs.takeWhile Char.isDigit
  if ds.isEmpty then none else some (ds, cs.drop ds.length)

/-- What is left behind digits is shorter, as there is at least one of them. -/
theorem digits?_length {cs ds rest : List Char} (h : digits? cs = some (ds, rest)) :
    rest.length < cs.length := by
  unfold digits? at h
  simp only at h
  split at h
  · cases h
  · next hne =>
    cases h
    have h1 : 0 < (cs.takeWhile Char.isDigit).length := by
      cases hd : cs.takeWhile Char.isDigit with
      | nil => simp [hd] at hne
      | cons => simp
    have h2 := (List.takeWhile_prefix (l := cs) Char.isDigit).length_le
    simp only [List.length_drop]
    omega

/-- The fraction at the front, if there is one. -/
def fraction? : List Char → Option (Option (List Char) × List Char)
  | '.' :: rest => (digits? rest).map fun (ds, after) => (some ds, after)
  | cs => some (none, cs)

/-- The exponent at the front, if there is one. -/
def exponent? : List Char → Option (Option (Bool × List Char) × List Char)
  | c :: rest =>
    if c == 'e' || c == 'E' then
      let (isNegative, body) :=
        match rest with
        | '-' :: body => (true, body)
        | '+' :: body => (false, body)
        | body => (false, body)
      (digits? body).map fun (ds, after) => (some (isNegative, ds), after)
    else some (none, c :: rest)
  | [] => some (none, [])

/-- A number without its sign. A zero at the front stands alone. -/
def unsigned? (isNegative : Bool) (cs : List Char) : Option (Numeral × List Char) := do
  let (whole, rest) ← digits? cs
  if whole.head? == some '0' && whole.length != 1 then none
  else
    let (fraction?, rest) ← fraction? rest
    let (exponent?, rest) ← exponent? rest
    return (⟨isNegative, whole, fraction?, exponent?⟩, rest)

/-- What is left behind a fraction is no longer; there need not be one. -/
theorem fraction?_length {cs rest : List Char} {f : Option (List Char)}
    (h : fraction? cs = some (f, rest)) : rest.length ≤ cs.length := by
  unfold fraction? at h
  split at h
  · simp only [Option.map_eq_some_iff, Prod.exists, Prod.mk.injEq] at h
    obtain ⟨ds, after, hd, _, rfl⟩ := h
    have := digits?_length hd
    simp only [List.length_cons]
    omega
  · cases h; simp

/-- What is left behind an exponent is no longer; there need not be one. -/
theorem exponent?_length {cs rest : List Char} {e : Option (Bool × List Char)}
    (h : exponent? cs = some (e, rest)) : rest.length ≤ cs.length := by
  unfold exponent? at h
  split at h
  · next c tail =>
    split at h
    · simp only [Option.map_eq_some_iff, Prod.exists, Prod.mk.injEq] at h
      obtain ⟨ds, after, hd, _, rfl⟩ := h
      have := digits?_length hd
      split at this
      all_goals simp only [List.length_cons] at *; omega
    · cases h; simp
  · cases h; simp

/-- What is left behind a number without its sign is shorter. -/
theorem unsigned?_length {b : Bool} {cs rest : List Char} {x : Numeral}
    (h : unsigned? b cs = some (x, rest)) : rest.length < cs.length := by
  unfold unsigned? at h
  simp only [Option.bind_eq_bind, Option.bind_eq_some_iff, Prod.exists] at h
  obtain ⟨whole, r1, h1, h⟩ := h
  split at h
  · cases h
  · simp only [Option.bind_eq_some_iff, Prod.exists] at h
    obtain ⟨f, r2, h2, e, r3, h3, h⟩ := h
    cases h
    have := digits?_length h1
    have := fraction?_length h2
    have := exponent?_length h3
    omega

/-- The word tokens. -/
def words : List (List Char × Token) :=
  [("null".toList, .null), ("true".toList, .bool true), ("false".toList, .bool false)]

/-- The token at the front of a text that starts with no blank, and what follows
it. -/
def token? : List Char → Option (Token × List Char)
  | [] => none
  | '[' :: rest => some (.openArray, rest)
  | ']' :: rest => some (.closeArray, rest)
  | '\x7b' :: rest => some (.openObject, rest)
  | '\x7d' :: rest => some (.closeObject, rest)
  | ',' :: rest => some (.comma, rest)
  | ':' :: rest => some (.colon, rest)
  | '"' :: rest =>
    (quoted? rest).map fun (units, after) => (.text ((characters? units).map String.ofList), after)
  | '-' :: rest => (unsigned? true rest).map fun (x, after) => (.number x, after)
  | c :: rest =>
    if c.isDigit then (unsigned? false (c :: rest)).map fun (x, after) => (.number x, after)
    else words.findSome? fun (word, token) =>
      if word.isPrefixOf (c :: rest) then some (token, rest.drop (word.length - 1)) else none

/-- Each token takes characters, so that reading tokens comes to an end. -/
theorem token?_length {cs rest : List Char} {token : Token}
    (h : token? cs = some (token, rest)) : rest.length < cs.length := by
  unfold token? at h
  split at h
  · cases h
  iterate 6
    · cases h; simp
  · simp only [Option.map_eq_some_iff, Prod.exists, Prod.mk.injEq] at h
    obtain ⟨us, after, hq, _, rfl⟩ := h
    have := quoted?_length hq
    simp only [List.length_cons]
    omega
  · simp only [Option.map_eq_some_iff, Prod.exists, Prod.mk.injEq] at h
    obtain ⟨x, after, hx, _, rfl⟩ := h
    have := unsigned?_length hx
    simp only [List.length_cons]
    omega
  · next c tail _ _ _ _ _ _ _ _ =>
    split at h
    · simp only [Option.map_eq_some_iff, Prod.exists, Prod.mk.injEq] at h
      obtain ⟨x, after, hx, _, rfl⟩ := h
      exact unsigned?_length hx
    · obtain ⟨⟨word, t⟩, _, hw⟩ := List.exists_of_findSome?_eq_some h
      simp only at hw
      split at hw
      · cases hw
        simp only [List.length_drop, List.length_cons]
        omega
      · cases hw

/-- The blanks between tokens. -/
def isSpace (c : Char) : Bool :=
  c == ' ' || c == '\n' || c == '\t' || c == '\r'

/-- The tokens of a text. -/
def tokens? (cs : List Char) : Option (List Token) :=
  match cs with
  | [] => some []
  | c :: rest =>
    if isSpace c then tokens? rest
    else
      match h : token? (c :: rest) with
      | none => none
      | some (token, after) =>
        have := token?_length h
        (tokens? after).map (token :: ·)
termination_by cs.length
decreasing_by
  all_goals simp only [List.length_cons] at *; omega

/-! ### Trees -/

/-- A document as written. -/
inductive Tree where
  | null
  | bool (b : Bool)
  | number (x : Numeral)
  /-- A quoted text, or `none` if its escapes spell no text. -/
  | text (s : Option String)
  | array (items : List Tree)
  /-- Members in order, with repeated names. -/
  | object (members : List (Option String × Tree))
  deriving Repr, Inhabited

/-- An open array or object. -/
inductive Frame where
  /-- The items so far. -/
  | array (items : Array Tree)
  /-- The members so far and the name that waits for its value. -/
  | object (members : Array (Option String × Tree)) (name : Option String)
  deriving Repr, Inhabited

/-- What may come next. -/
inductive Expected where
  /-- A value. -/
  | value
  /-- A value or the end of the array. -/
  | valueOrEnd
  /-- A member name. -/
  | name
  /-- A member name or the end of the object. -/
  | nameOrEnd
  /-- The colon after a name. -/
  | colon
  /-- A comma or the end of the array or object. -/
  | commaOrEnd
  /-- Nothing: the document is complete. -/
  | nothing (tree : Tree)
  deriving Repr, Inhabited

/-- The open arrays and objects while tokens are read. -/
structure Parser where
  /-- What may come next. -/
  expected : Expected := .value
  /-- The open arrays and objects, innermost first. -/
  frames : List Frame := []
  deriving Repr, Inhabited

namespace Parser

/-- Puts a complete value where it belongs. -/
def place (frames : List Frame) (v : Tree) : Parser :=
  match frames with
  | [] => ⟨.nothing v, []⟩
  | .array items :: outer => ⟨.commaOrEnd, .array (items.push v) :: outer⟩
  | .object members name :: outer => ⟨.commaOrEnd, .object (members.push (name, v)) name :: outer⟩

/-- Reads a token where a value may begin. -/
def beginValue (frames : List Frame) : Token → Option Parser
  | .null => some (place frames .null)
  | .bool b => some (place frames (.bool b))
  | .number x => some (place frames (.number x))
  | .text s => some (place frames (.text s))
  | .openArray => some ⟨.valueOrEnd, .array #[] :: frames⟩
  | .openObject => some ⟨.nameOrEnd, .object #[] none :: frames⟩
  | _ => none

/-- Closes the innermost array or object, which has to fit the token. -/
def close : Token → List Frame → Option Parser
  | .closeArray, .array items :: outer => some (place outer (.array items.toList))
  | .closeObject, .object members _ :: outer => some (place outer (.object members.toList))
  | _, _ => none

/-- Reads a token where a member name may stand. -/
def beginMember (frames : List Frame) : Token → Option Parser
  | .text s =>
    match frames with
    | .object members _ :: outer => some ⟨.colon, .object members s :: outer⟩
    | _ => none
  | _ => none

/-- Reads one token. -/
def step (p : Parser) (token : Token) : Option Parser :=
  match p.expected with
  | .nothing _ => none
  | .value => beginValue p.frames token
  | .valueOrEnd => (close token p.frames).orElse fun _ => beginValue p.frames token
  | .name => beginMember p.frames token
  | .nameOrEnd => (close token p.frames).orElse fun _ => beginMember p.frames token
  | .colon => if token = .colon then some { p with expected := .value } else none
  | .commaOrEnd =>
    match token, p.frames with
    | .comma, .array _ :: _ => some { p with expected := .value }
    | .comma, .object _ _ :: _ => some { p with expected := .name }
    | _, _ => close token p.frames

/-- The document, if it is complete. -/
def finish? (p : Parser) : Option Tree :=
  match p.expected with
  | .nothing tree => some tree
  | _ => none

end Parser

/-- The document that a text spells. -/
def read? (text : String) : Option Tree := do
  let tokens ← tokens? text.toList
  let p ← tokens.foldlM Parser.step {}
  p.finish?

end ProxyLint.JsonText
