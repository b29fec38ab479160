import ProxyLint.JsonText

/-!
# Document values

The values that documents stand for, and how they are written. A value keeps its
members in the order in which they are written; the value of a document has them
sorted by name, and of members with one name it has the last.

## Main definitions

* `ProxyLint.JsonValue` — a value.
* `ProxyLint.JsonValue.ofTree?` — the value of a document.
* `ProxyLint.JsonValue.compact` — a value without blanks.
* `ProxyLint.JsonValue.pretty` — a value with one member on a line.
-/

set_option relaxedAutoImplicit false
set_option autoImplicit false

namespace ProxyLint

/-- A value of a document. -/
inductive JsonValue where
  | null
  | bool (b : Bool)
  | number (n : JsonText.Number)
  | text (s : String)
  | array (items : List JsonValue)
  /-- Members in the order in which they are written. -/
  | object (members : List (String × JsonValue))
  deriving Repr, Inhabited

namespace JsonValue

open JsonText

/-! ### Values of documents -/

/-- Puts a member where its name belongs; a member of the same name goes. -/
def insertMember (name : String) (v : JsonValue) :
    List (String × JsonValue) → List (String × JsonValue)
  | [] => [(name, v)]
  | (k, w) :: rest =>
    if k == name then (name, v) :: rest
    else if name < k then (name, v) :: (k, w) :: rest
    else (k, w) :: insertMember name v rest

mutual

/-- The value of a document in which arrays and objects are nested less than
`depth` times. There is none if a number is too large or a text is no text. -/
def ofTree? (depth : Nat) : Tree → Option JsonValue
  | .null => some .null
  | .bool b => some (.bool b)
  | .number x => x.value?.map .number
  | .text s => s.map .text
  | .array items => if depth ≤ 1 then none else (ofItems? (depth - 1) items).map .array
  | .object members =>
    if depth ≤ 1 then none else (ofMembers? (depth - 1) [] members).map .object

/-- The values of the items of an array. -/
def ofItems? (depth : Nat) : List Tree → Option (List JsonValue)
  | [] => some []
  | t :: rest =>
    match ofTree? depth t, ofItems? depth rest with
    | some v, some vs => some (v :: vs)
    | _, _ => none

/-- The values of the members of an object, added to those so far. -/
def ofMembers? (depth : Nat) (sofar : List (String × JsonValue)) :
    List (Option String × Tree) → Option (List (String × JsonValue))
  | [] => some sofar
  | (name, t) :: rest =>
    match name, ofTree? depth t with
    | some n, some v => ofMembers? depth (insertMember n v sofar) rest
    | _, _ => none

end

/-! ### Writing -/

/-- A digit of base 16 in lower case. -/
def hexDigit (n : Nat) : Char :=
  Nat.digitChar n

/-- A character inside quotes. -/
def quoteChar (c : Char) : List Char :=
  match c with
  | '"' => ['\\', '"']
  | '\\' => ['\\', '\\']
  | '\x08' => ['\\', 'b']
  | '\x0c' => ['\\', 'f']
  | '\n' => ['\\', 'n']
  | '\r' => ['\\', 'r']
  | '\t' => ['\\', 't']
  | c =>
    if c.toNat < 0x20 then "\\u00".toList ++ [hexDigit (c.toNat / 16), hexDigit (c.toNat % 16)]
    else [c]

/-- A text in quotes. -/
def quote (s : String) : String :=
  String.ofList ('"' :: s.toList.flatMap quoteChar ++ ['"'])

mutual

/-- A value without blanks. -/
def compact : JsonValue → String
  | .null => "null"
  | .bool b => if b then "true" else "false"
  | .number n => n.text
  | .text s => quote s
  | .array items => "[" ++ Text.joinWith "," (compactItems items) ++ "]"
  | .object members => "\x7b" ++ Text.joinWith "," (compactMembers members) ++ "\x7d"

/-- The items of an array without blanks. -/
def compactItems : List JsonValue → List String
  | [] => []
  | v :: rest => compact v :: compactItems rest

/-- The members of an object without blanks. -/
def compactMembers : List (String × JsonValue) → List String
  | [] => []
  | (name, v) :: rest => (quote name ++ ":" ++ compact v) :: compactMembers rest

end

/-- The lines of a bracketed list, one item on a line and two blanks deeper than
the brackets. -/
def bracketed (first last indent : String) (items : List String) : String :=
  if items.isEmpty then first ++ last
  else
    let inner := indent ++ "  "
    first ++ "\n" ++ Text.joinWith ",\n" (items.map (inner ++ ·)) ++ "\n" ++ indent ++ last

mutual

/-- A value with one item or member on a line. -/
def prettyAt (indent : String) : JsonValue → String
  | .array items => bracketed "[" "]" indent (prettyItems (indent ++ "  ") items)
  | .object members => bracketed "\x7b" "\x7d" indent (prettyMembers (indent ++ "  ") members)
  | .null => "null"
  | .bool b => if b then "true" else "false"
  | .number n => n.text
  | .text s => quote s

/-- The items of an array. -/
def prettyItems (indent : String) : List JsonValue → List String
  | [] => []
  | v :: rest => prettyAt indent v :: prettyItems indent rest

/-- The members of an object. -/
def prettyMembers (indent : String) : List (String × JsonValue) → List String
  | [] => []
  | (name, v) :: rest => (quote name ++ ": " ++ prettyAt indent v) :: prettyMembers indent rest

end

/-- A value with one item or member on a line. -/
def pretty (v : JsonValue) : String :=
  prettyAt "" v

end JsonValue

end ProxyLint
