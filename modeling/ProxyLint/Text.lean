/-!
# Text

Character classes, trimming and the small readers on characters that every
format of the library shares. Each operation is a function on lists of
characters; the operations on `String` are that function between `toList` and
`ofList`.

## Main definitions

* `ProxyLint.Text.isBlank` — the Unicode `White_Space` property.
* `ProxyLint.Text.strip`, `ProxyLint.Text.trim` — removal of blanks at both ends.
* `ProxyLint.Text.lines` — the physical lines of a text.
* `ProxyLint.Text.words` — the blank-separated words of a text.
* `ProxyLint.Text.breakOn?` — the first place where a pattern occurs.
* `ProxyLint.Text.readInt64?` — a decimal integer that fits 64 bits.
-/

set_option relaxedAutoImplicit false
set_option autoImplicit false

namespace ProxyLint.Text

/-! ### Character classes -/

/-- The characters of the Unicode `White_Space` property. -/
def isBlank (c : Char) : Bool :=
  let n := c.toNat
  (9 ≤ n && n ≤ 13) || n == 0x20 || n == 0x85 || n == 0xA0 || n == 0x1680 ||
    (0x2000 ≤ n && n ≤ 0x200A) || n == 0x2028 || n == 0x2029 || n == 0x202F ||
    n == 0x205F || n == 0x3000

/-- The five blanks of ASCII; the vertical tab is not one of them. -/
def isAsciiBlank (c : Char) : Bool :=
  c == ' ' || c == '\t' || c == '\n' || c == '\x0c' || c == '\r'

/-! ### Trimming -/

/-- Drops the blanks at the front. -/
def stripStart (cs : List Char) : List Char :=
  cs.dropWhile isBlank

/-- Drops the blanks at the end. -/
def stripEnd (cs : List Char) : List Char :=
  (cs.reverse.dropWhile isBlank).reverse

/-- Drops the blanks at both ends. -/
def strip (cs : List Char) : List Char :=
  stripEnd (stripStart cs)

/-- The text without the blanks at its ends. -/
def trim (s : String) : String :=
  String.ofList (strip s.toList)

/-- A text is blank when it holds nothing but blanks. -/
def isBlankText (s : String) : Bool :=
  s.toList.all isBlank

/-- Stripping the start makes nothing longer. -/
theorem stripStart_length_le (cs : List Char) : (stripStart cs).length ≤ cs.length :=
  (List.dropWhile_suffix _).length_le

/-- Stripping the end makes nothing longer. -/
theorem stripEnd_length_le (cs : List Char) : (stripEnd cs).length ≤ cs.length := by
  simpa [stripEnd] using (List.dropWhile_suffix (l := cs.reverse) isBlank).length_le

/-- Stripping both ends makes nothing longer. -/
theorem strip_length_le (cs : List Char) : (strip cs).length ≤ cs.length :=
  Nat.le_trans (stripEnd_length_le _) (stripStart_length_le _)

/-! ### Letter case

Only the letters of ASCII have a second case here, so `İ` is its own lower case. -/

/-- The text in ASCII lower case. -/
def lower (s : String) : String :=
  String.ofList (s.toList.map Char.toLower)

/-- The text in ASCII upper case. -/
def upper (s : String) : String :=
  String.ofList (s.toList.map Char.toUpper)

/-- Equality up to the case of ASCII letters. -/
def sameLetters (s t : String) : Bool :=
  lower s == lower t

/-! ### Front and back -/

/-- The rest of `cs` after `pre`, if `cs` starts with it. -/
def after? (pre cs : List Char) : Option (List Char) :=
  if pre.isPrefixOf cs then some (cs.drop pre.length) else none

/-- What stands before the last character, if that character is `c`. -/
def beforeLast? (c : Char) (cs : List Char) : Option (List Char) :=
  match cs.getLast? with
  | some d => if d == c then some cs.dropLast else none
  | none => none

/-- Whether the text starts with `pre`. -/
def startsWith (pre s : String) : Bool :=
  pre.toList.isPrefixOf s.toList

/-- Whether `part` occurs in `cs`. -/
def occursIn (part : List Char) : List Char → Bool
  | [] => part.isEmpty
  | c :: cs => part.isPrefixOf (c :: cs) || occursIn part cs

/-- Splits `cs` at the first occurrence of `part`: what precedes it and what
follows it. -/
def breakOn? (part : List Char) : List Char → Option (List Char × List Char)
  | [] => if part.isEmpty then some ([], []) else none
  | c :: cs =>
    match after? part (c :: cs) with
    | some rest => some ([], rest)
    | none => (breakOn? part cs).map fun (before, rest) => (c :: before, rest)

/-- What is left behind a prefix is shorter by the prefix. -/
theorem after?_length {pre cs rest : List Char} (h : after? pre cs = some rest) :
    rest.length + pre.length = cs.length := by
  unfold after? at h
  split at h
  · next hp =>
    cases h
    have hle := (List.isPrefixOf_iff_prefix.1 hp).length_le
    simp only [List.length_drop]
    omega
  · cases h

/-- The three parts of a split make up the whole. -/
theorem breakOn?_length {part cs before rest : List Char}
    (h : breakOn? part cs = some (before, rest)) :
    before.length + part.length + rest.length = cs.length := by
  induction cs generalizing before with
  | nil =>
    unfold breakOn? at h
    split at h
    · next he => cases h; simp [List.isEmpty_iff.1 he]
    · cases h
  | cons c cs ih =>
    unfold breakOn? at h
    split at h
    · next r hr =>
      cases h
      have := after?_length hr
      simp only [List.length_nil, List.length_cons] at *
      omega
    · simp only [Option.map_eq_some_iff, Prod.exists, Prod.mk.injEq] at h
      obtain ⟨b, r, hb, rfl, rfl⟩ := h
      have := ih hb
      simp only [List.length_cons]
      omega

/-! ### Lines, words and fields -/

/-- The physical lines: each ends at a line feed, which may have a carriage
return before it, and the last one may lack its end. -/
def lineList : List Char → List (List Char)
  | [] => []
  | '\n' :: rest => [] :: lineList rest
  | '\r' :: '\n' :: rest => [] :: lineList rest
  | c :: rest =>
    match lineList rest with
    | [] => [[c]]
    | line :: others => (c :: line) :: others

/-- The physical lines of a text, without their ends. -/
def lines (s : String) : List String :=
  (lineList s.toList).map String.ofList

/-- The pieces of a text between the characters `sep`; `n` of them make `n + 1` pieces. -/
def fields (sep : Char) (s : String) : List String :=
  (s.toList.splitOn sep).map String.ofList

/-- The words of a list of characters: its maximal runs without a blank. -/
def wordList (cs : List Char) : List (List Char) :=
  (cs.splitOnP isBlank).filter (fun w => !w.isEmpty)

/-- The blank-separated words of a text. -/
def words (s : String) : List String :=
  (wordList s.toList).map String.ofList

/-- The texts in order with `sep` between neighbours. -/
def joinWith (sep : String) : List String → String
  | [] => ""
  | [s] => s
  | s :: rest => s ++ sep ++ joinWith sep rest

/-! ### Numbers -/

/-- The value of a run of decimal digits, most significant first. -/
def digitsValue (cs : List Char) : Nat :=
  cs.foldl (fun n c => 10 * n + (c.toNat - '0'.toNat)) 0

/-- A nonempty run of decimal digits and nothing else. -/
def readNat? (cs : List Char) : Option Nat :=
  if !cs.isEmpty && cs.all Char.isDigit then some (digitsValue cs) else none

/-- The value of a hexadecimal digit. -/
def hexValue? (c : Char) : Option Nat :=
  if c.isDigit then some (c.toNat - '0'.toNat)
  else if 'a' ≤ c && c ≤ 'f' then some (c.toNat - 'a'.toNat + 10)
  else if 'A' ≤ c && c ≤ 'F' then some (c.toNat - 'A'.toNat + 10)
  else none

/-- The value of hexadecimal digits. -/
def hexNumber? (cs : List Char) : Option Nat :=
  cs.foldlM (fun n c => (hexValue? c).map fun d => 16 * n + d) 0

/-- Whether an integer fits 64 bits in two's complement. -/
def fitsInt64 (n : Int) : Bool :=
  -9223372036854775808 ≤ n && n ≤ 9223372036854775807

/-- A decimal integer with an optional sign that fits 64 bits. -/
def readInt64? (cs : List Char) : Option Int :=
  let value : Option Int :=
    match cs with
    | '-' :: ds => (readNat? ds).map fun n => -(n : Int)
    | '+' :: ds => (readNat? ds).map Int.ofNat
    | ds => (readNat? ds).map Int.ofNat
  value.filter fitsInt64

/-- The decimal digits of a natural number. -/
def ofNat (n : Nat) : String :=
  String.ofList (Nat.toDigits 10 n)

/-- The decimal digits of an integer, after a minus sign if it is negative. -/
def ofInt (n : Int) : String :=
  match n with
  | .ofNat k => ofNat k
  | .negSucc k => "-" ++ ofNat (k + 1)

end ProxyLint.Text
