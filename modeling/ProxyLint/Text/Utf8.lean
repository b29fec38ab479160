import ProxyLint.Text

/-!
# The bytes of texts

The system knows names as bytes. The bytes of a text are its code in UTF-8. Bytes need not be the
code of a text; they are read as one all the same, with a mark in the place of each longest start
of a character that goes wrong.

## Main definitions

* `ProxyLint.Text.bytes` — the bytes of a text.
* `ProxyLint.Text.readLossy` — bytes as characters, with marks for what is no character.
-/

set_option relaxedAutoImplicit false
set_option autoImplicit false

namespace ProxyLint.Text

/-- The bytes of a list of characters in UTF-8. -/
def encode (cs : List Char) : List UInt8 :=
  cs.flatMap String.utf8EncodeChar

/-- The bytes of a text in UTF-8. -/
def bytes (s : String) : List UInt8 :=
  encode s.toList

/-- The mark for bytes that are no character. -/
def replacement : Char :=
  '\uFFFD'

/-- A character of which some bytes have been read. -/
structure Unfinished where
  /-- What the bytes so far come to. -/
  value : Nat
  /-- How many bytes are missing. -/
  missing : Nat
  /-- The smallest byte that may come next. -/
  low : Nat
  /-- The largest byte that may come next. -/
  high : Nat
  deriving DecidableEq, Repr, Inhabited

/-- What a byte comes to between characters: a character or a mark, or the start of a longer
character. The bytes that may follow the start leave out what has a shorter code, and the codes
that are no characters. -/
def firstByte (b : Nat) : List Char × Option Unfinished :=
  if b < 0x80 then ([Char.ofNat b], none)
  else if 0xC2 ≤ b && b ≤ 0xDF then ([], some ⟨b - 0xC0, 1, 0x80, 0xBF⟩)
  else if 0xE0 ≤ b && b ≤ 0xEF then
    ([], some ⟨b - 0xE0, 2, if b = 0xE0 then 0xA0 else 0x80, if b = 0xED then 0x9F else 0xBF⟩)
  else if 0xF0 ≤ b && b ≤ 0xF4 then
    ([], some ⟨b - 0xF0, 3, if b = 0xF0 then 0x90 else 0x80, if b = 0xF4 then 0x8F else 0xBF⟩)
  else ([replacement], none)

/-- Reads on, with the character that has been started, if any. A byte that cannot follow its start
puts a mark in the place of the start, and is a first byte then. -/
def readFrom : Option Unfinished → List UInt8 → List Char
  | none, [] => []
  | some _, [] => [replacement]
  | none, b :: bs =>
    let first := firstByte b.toNat
    first.1 ++ readFrom first.2 bs
  | some u, b :: bs =>
    if u.low ≤ b.toNat && b.toNat ≤ u.high then
      let value := 64 * u.value + (b.toNat - 0x80)
      if u.missing ≤ 1 then Char.ofNat value :: readFrom none bs
      else readFrom (some ⟨value, u.missing - 1, 0x80, 0xBF⟩) bs
    else
      let first := firstByte b.toNat
      replacement :: (first.1 ++ readFrom first.2 bs)

/-- The characters that bytes stand for, with a mark for what is no character. -/
def readLossy (bs : List UInt8) : List Char :=
  readFrom none bs

end ProxyLint.Text
