import ProxyLint.Decimal.Shortest

/-!
# Numbers of a document

A number of a document is kept as written. Its value is an integer if it has
neither fraction nor exponent and fits 64 bits, with or without a sign; any other
number is a binary floating-point number, computed from its leading digits and a
power of ten.

## Main definitions

* `ProxyLint.JsonText.Numeral` — a number as written.
* `ProxyLint.JsonText.Number` — the value of a number.
* `ProxyLint.JsonText.Numeral.value?` — the value, if it is finite.
-/

set_option relaxedAutoImplicit false
set_option autoImplicit false

namespace ProxyLint.JsonText

/-- A number as written. -/
structure Numeral where
  /-- Whether it has a minus sign. -/
  isNegative : Bool
  /-- The digits before the point. -/
  whole : List Char
  /-- The digits after the point. -/
  fraction? : Option (List Char)
  /-- Whether the exponent is negative, and its digits. -/
  exponent? : Option (Bool × List Char)
  deriving DecidableEq, Repr, Inhabited

/-- The value of a number. -/
inductive Number where
  /-- An integer of 64 bits, with or without a sign. -/
  | integer (n : Int)
  /-- Any other number, in shortest decimal notation. -/
  | decimal (text : String)
  deriving DecidableEq, Repr, Inhabited

/-- The number in decimal notation. -/
def Number.text : Number → String
  | .integer n => Text.ofInt n
  | .decimal t => t

/-- The greatest number of 64 bits. -/
def maxWord : Nat := 18446744073709551615

/-- The leading digits as a number, and how many digits that leaves. Digits count
as long as the number fits 64 bits. -/
def takeDigits (n : Nat) : List Char → Nat × Nat
  | [] => (n, 0)
  | c :: rest =>
    let next := 10 * n + (c.toNat - '0'.toNat)
    if next ≤ maxWord then takeDigits next rest else (n, rest.length + 1)

/-- `f` times `10 ^ exponent`, or `none` if that is too large. A power of ten
that has no floating-point value is divided out in steps, at most `steps` of
them. -/
def scaleFloat (f : Float) (exponent : Int) : Nat → Option Float
  | 0 => some f
  | steps + 1 =>
    if exponent.natAbs ≤ 308 then
      let power := Float.ofScientific 1 false exponent.natAbs
      if 0 ≤ exponent then
        let g := f * power
        if g.isInf then none else some g
      else some (f / power)
    else if f == 0.0 then some f
    else if 0 ≤ exponent then none
    else scaleFloat (f / Float.ofScientific 1 false 308) (exponent + 308) steps

/-- The floating-point number `digits · 10 ^ exponent`, if it is finite. After
four divisions by the largest power of ten nothing is left of any number. -/
def floatOf? (isNegative : Bool) (digits : Nat) (exponent : Int) : Option Number :=
  (scaleFloat digits.toUInt64.toFloat exponent 8).map fun f =>
    .decimal (Decimal.floatText (if isNegative then -f else f))

/-- The greatest exponent that is told apart from larger ones. -/
def maxExponent : Nat := 2147483647

namespace Numeral

/-- The floating-point number with the given leading digits, once the exponent as
written is added to the one that the digits need. -/
def withExponent? (x : Numeral) (digits : Nat) (exponent : Int) : Option Number :=
  match x.exponent? with
  | none => floatOf? x.isNegative digits exponent
  | some (isNegative, ds) =>
    let written := Text.digitsValue ds
    if maxExponent < written then
      if digits != 0 && !isNegative then none
      else some (.decimal (if x.isNegative then "-0.0" else "0.0"))
    else
      floatOf? x.isNegative digits (if isNegative then exponent - written else exponent + written)

/-- The value, if it is finite. -/
def value? (x : Numeral) : Option Number :=
  let (digits, left) := takeDigits 0 x.whole
  match x.fraction? with
  | some fs =>
    let (digits, leftAfter) := takeDigits digits fs
    x.withExponent? digits ((left : Int) - (fs.length - leftAfter : Nat))
  | none =>
    if x.exponent?.isSome || 0 < left then x.withExponent? digits left
    else if !x.isNegative then some (.integer digits)
    else if digits == 0 || 9223372036854775808 < digits then floatOf? true digits 0
    else some (.integer (-(digits : Int)))

end Numeral

end ProxyLint.JsonText
