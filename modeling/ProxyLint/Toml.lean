import ProxyLint.Toml.Quoted
import ProxyLint.Toml.Table

/-!
# TOML documents

A document is a list of statements: headers, and keys with their values. The
statements are read first and then carried out one after the other.

## Main definitions

* `ProxyLint.Toml.value` — reads a value of limited depth.
* `ProxyLint.Toml.Statement` — a header, or a key with its value.
* `ProxyLint.Toml.statements?` — the statements of a text.
* `ProxyLint.Toml.read?` — the members of the document that a text spells.
-/

set_option relaxedAutoImplicit false
set_option autoImplicit false

namespace ProxyLint.Toml

open Reader (char run)

/-! ### Blanks and comments -/

/-- Passes over blanks inside a line. -/
def spaces : Skip :=
  Skip.all isSpace

/-- What is left after blanks, line ends and comments. -/
def dropGap (isComment : Bool) : List Char → List Char
  | [] => []
  | c :: rest =>
    if c == '\n' then dropGap false rest
    else if isComment then if isPrintable c then dropGap true rest else c :: rest
    else if isSpace c then dropGap false rest
    else if c == '#' then dropGap true rest
    else c :: rest

/-- Dropping blanks and remarks makes nothing longer. -/
theorem dropGap_length_le (isComment : Bool) (cs : List Char) :
    (dropGap isComment cs).length ≤ cs.length := by
  induction cs generalizing isComment with
  | nil => simp [dropGap]
  | cons c rest ih =>
    unfold dropGap
    have h1 := ih false
    have h2 := ih true
    repeat' split
    all_goals simp only [List.length_cons]; omega

/-- Passes over blanks, line ends and comments. -/
def gap : Skip :=
  ⟨dropGap false, dropGap_length_le false⟩

/-- What is left after blanks inside a line and a comment. -/
def dropRemark (cs : List Char) : List Char :=
  match cs.dropWhile isSpace with
  | '#' :: comment => comment.dropWhile isPrintable
  | left => left

/-- Dropping a remark makes nothing longer. -/
theorem dropRemark_length_le (cs : List Char) : (dropRemark cs).length ≤ cs.length := by
  have h := (List.dropWhile_suffix (l := cs) isSpace).length_le
  unfold dropRemark
  split
  · next comment hc =>
    have := (List.dropWhile_suffix (l := comment) isPrintable).length_le
    simp only [hc, List.length_cons] at h
    omega
  · exact h

/-- Whether a text starts with a line end or is at its end. -/
def isLineEnd : List Char → Bool
  | [] => true
  | c :: _ => c == '\n'

/-! ### Keys -/

/-- The characters of keys without quotes. -/
def isKeyChar (c : Char) : Bool :=
  c.isAlphanum || c == '_' || c == '-'

/-- Reads one part of a key. -/
def keyPart : Reader String :=
  (basic.orElse literal).orElse ((run isKeyChar).map String.ofList)

/-- One more than the greatest number of parts of a key and the greatest depth of
a value. -/
def depthLimit : Nat := 80

/-- Reads the parts of a key up to the character that ends it, keeping the last
one first until then. -/
def key (last : Char) : Reader (List String) :=
  (Reader.iterate (fun sofar =>
    (keyPart.skipping spaces).bind fun part =>
      ((char '.').map fun _ => Progress.more (part :: sofar)).orElse
        ((char last).map fun _ => Progress.done (part :: sofar).reverse) |>.skipping spaces) []).filterMap
    fun parts => if parts.length < depthLimit then some parts else none

/-! ### Values -/

/-- The characters of words: truth values, numbers and dates. -/
def isWordChar (c : Char) : Bool :=
  c.isAlphanum || c == '_' || c == '+' || c == '-' || c == '.' || c == ':'

/-- Reads a date and a time of day with a blank between them. -/
def spacedMoment : Reader Scalar :=
  (run isWordChar).bind fun date => ((char ' ').andThen (run isWordChar)).filterMap fun time =>
    if isDate date && isZonedTime time then
      some (.moment (String.ofList (date ++ 'T' :: time)))
    else none

/-- Reads a value without parts. -/
def scalar : Reader Scalar :=
  (text.map Scalar.text).orElse (spacedMoment.orElse ((run isWordChar).filterMap Scalar.ofWord?))

/-- Reads an array of items, keeping the last one first until it is closed. A
comma may follow the last one. -/
def array (item : Reader Value) : Reader Value :=
  (char '[').andThen <| Reader.iterate (fun sofar : List Value =>
    let close : Reader Unit := (char ']').skipping gap
    (close.map fun _ => .done (.array sofar.reverse)).orElse <|
      (item.skipping gap).bind fun v =>
        (((char ',').skipping gap).map fun _ => Progress.more (v :: sofar)).orElse
          (close.map fun _ => .done (.array (v :: sofar).reverse))) []

/-- Reads the members of an inline table after its first brace. -/
def inlineMembers (item : Reader Value) : Reader Value :=
  Reader.iterate (fun sofar : Members =>
    ((key '=').bind fun parts => (item.skipping spaces).filterMap fun v =>
        sofar.assign parts v).bind fun ms =>
      (((char ',').map fun _ => Progress.more ms).orElse
        ((char '\x7d').map fun _ => .done (.table .inline ms))).skipping spaces) []

/-- Reads an inline table. No comma may follow the last member. -/
def inlineTable (item : Reader Value) : Reader Value :=
  (char '\x7b').andThen <|
    (((char '\x7d').skipping spaces).map fun _ => .table .inline []).orElse (inlineMembers item)

/-- Reads a value with at most so many arrays and inline tables around its parts. -/
def value : Nat → Reader Value
  | 0 => scalar.map .scalar
  | depth + 1 =>
    (scalar.map .scalar).orElse ((array (value depth)).orElse (inlineTable (value depth)))

/-! ### Statements -/

/-- A statement of a document. -/
inductive Statement where
  /-- The header of a table. -/
  | table (path : List String)
  /-- The header of one of several tables. -/
  | tables (path : List String)
  /-- A key and its value. -/
  | assign (path : List String) (v : Value)
  deriving Repr, Inhabited

/-- Reads a statement. -/
def statement : Reader Statement :=
  let tables := (char '[').andThen ((char '[').andThen ((key ']').followedBy (char ']')))
  let table := (char '[').andThen (key ']')
  let assign := (key '=').bind fun path =>
    ((value (depthLimit - 1)).skipping spaces).map fun v => Statement.assign path v
  ((tables.map .tables).orElse (table.map .table)).orElse assign

/-- The statements of a text, each on lines of its own. -/
def statements? (cs : List Char) : Option (List Statement) :=
  match (gap.skip cs).isEmpty, (statement.skipping gap).read? cs with
  | true, _ => some []
  | false, none => none
  | false, some (s, left) =>
    have := Nat.lt_of_le_of_lt (dropRemark_length_le left.val) left.property
    if isLineEnd (dropRemark left.val) then (statements? (dropRemark left.val)).map (s :: ·)
    else none
termination_by cs.length

/-! ### Documents -/

/-- The members so far and the path of the last header. -/
structure Document where
  /-- The members so far. -/
  members : Members := []
  /-- The path of the last header. -/
  header : List String := []
  deriving Repr, Inhabited

/-- Carries out a statement. -/
def Document.step (d : Document) : Statement → Option Document
  | .table path => (d.members.openTable path).map fun ms => ⟨ms, path⟩
  | .tables path => (d.members.openTables path).map fun ms => ⟨ms, path⟩
  | .assign path v =>
    (d.members.within (fun ms => ms.assign path v) d.header).map fun ms => { d with members := ms }

/-- The text with a line feed in the place of each carriage return and line
feed. -/
def withLineFeeds : List Char → List Char
  | '\r' :: '\n' :: rest => '\n' :: withLineFeeds rest
  | c :: rest => c :: withLineFeeds rest
  | [] => []

/-- The text without a byte order mark at its front. -/
def withoutMark : List Char → List Char
  | '\uFEFF' :: rest => rest
  | cs => cs

/-- The members of the document that a text spells. -/
def read? (text : String) : Option Members := do
  let all ← statements? (withLineFeeds (withoutMark text.toList))
  let d ← all.foldlM Document.step {}
  return d.members

end ProxyLint.Toml
