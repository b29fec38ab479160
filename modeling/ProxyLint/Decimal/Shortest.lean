import ProxyLint.Text

/-!
# Shortest decimal digits

A binary floating-point number is printed with the fewest decimal digits that
read back as the same number; of several such decimals the nearest to the number
is taken, and of two equally near ones the even one. All arithmetic is exact: the
number is `mantissa · 2 ^ exponent`, and the decimals that read back as it are
those between the midpoints to its neighbours.

## Main definitions

* `ProxyLint.Decimal.Binary` — a positive number with its midpoints.
* `ProxyLint.Decimal.shortest` — its shortest digits and their exponent.
* `ProxyLint.Decimal.floatText` — a finite number in decimal notation.
-/

set_option relaxedAutoImplicit false
set_option autoImplicit false

namespace ProxyLint.Decimal

/-- A positive number between the midpoints to its neighbours, as fractions with
one denominator. -/
structure Binary where
  /-- Numerator of the midpoint below. -/
  low : Nat
  /-- Numerator of the number. -/
  value : Nat
  /-- Numerator of the midpoint above. -/
  high : Nat
  /-- The denominator. -/
  den : Nat
  /-- Whether the midpoints themselves read back as the number. -/
  closed : Bool
  deriving DecidableEq, Repr, Inhabited

/-- The number `mantissa · 2 ^ exponent`. At a power of two the neighbour below
is only half as far away. -/
def Binary.ofParts (mantissa : Nat) (exponent : Int) (isPowerOfTwo : Bool) : Binary :=
  let low := if isPowerOfTwo then 4 * mantissa - 1 else 4 * mantissa - 2
  let shift := exponent - 2
  let up := Nat.pow 2 shift.toNat
  { low := low * up
    value := 4 * mantissa * up
    high := (4 * mantissa + 2) * up
    den := Nat.pow 2 (-shift).toNat
    closed := mantissa % 2 == 0 }

/-- A decimal `digits · 10 ^ exponent`. -/
structure Digits where
  /-- The digits as a number. -/
  digits : Nat
  /-- The exponent of ten. -/
  exponent : Int
  deriving DecidableEq, Repr, Inhabited

/-- The fractions of a number counted in steps of `10 ^ g`. -/
def Binary.rescale (b : Binary) (g : Int) : Binary :=
  let up := Nat.pow 10 (-g).toNat
  { b with
    low := b.low * up
    value := b.value * up
    high := b.high * up
    den := b.den * Nat.pow 10 g.toNat }

/-- Whether the whole number `n` reads back as the number. -/
def Binary.admits (b : Binary) (n : Nat) : Bool :=
  let m := n * b.den
  if b.closed then b.low ≤ m && m ≤ b.high else b.low < m && m < b.high

/-- The whole number next to the number that reads back as it, the nearer one of
two. -/
def Binary.round? (b : Binary) : Option Nat :=
  let down := b.value / b.den
  let rest := b.value % b.den
  match b.admits down, b.admits (down + 1) with
  | true, true =>
    if 2 * rest < b.den then some down
    else if b.den < 2 * rest then some (down + 1)
    else some (if down % 2 == 0 then down else down + 1)
  | true, false => some down
  | false, true => some (down + 1)
  | false, false => none

/-- The number of decimal digits before the point, which is at most 0 for numbers
below 1: the least `k` with the number below `10 ^ k`, searched upwards from
`start` for at most `steps` steps. -/
def Binary.magnitude (b : Binary) (start : Int) : Nat → Int
  | 0 => start
  | steps + 1 =>
    let r := b.rescale start
    if r.value < r.den then start else b.magnitude (start + 1) steps

/-- Drops the zeros at the end of the digits, at most `steps` of them. -/
def Digits.trimZeros (d : Digits) : Nat → Digits
  | 0 => d
  | steps + 1 =>
    if d.digits % 10 == 0 && d.digits != 0 then
      (Digits.mk (d.digits / 10) (d.exponent + 1)).trimZeros steps
    else d

/-- The shortest decimal among those with `count`, `count + 1`, … digits. -/
def Binary.shortestFrom (b : Binary) (magnitude : Int) (count : Nat) : Nat → Digits
  | 0 => ⟨0, 0⟩
  | steps + 1 =>
    let g := magnitude - count
    match (b.rescale g).round? with
    | some n => (Digits.mk n g).trimZeros 20
    | none => b.shortestFrom magnitude (count + 1) steps

/-- The shortest decimal that reads back as the number. Seventeen digits always
suffice. -/
def shortest (b : Binary) : Digits :=
  b.shortestFrom (b.magnitude (-330) 700) 1 17

/-- The shortest decimal of the absolute value of a finite number. -/
def ofFloat (f : Float) : Digits :=
  let bits := f.toBits.toNat
  let field : Nat := bits / Nat.pow 2 52 % Nat.pow 2 11
  let fraction : Nat := bits % Nat.pow 2 52
  if field == 0 then
    if fraction == 0 then ⟨0, 0⟩ else shortest (.ofParts fraction (-1074) false)
  else
    shortest (.ofParts (fraction + Nat.pow 2 52) ((field : Int) - 1075) (fraction == 0 && field > 1))

/-- The exponent of a decimal, written with its sign. -/
def exponentText (e : Int) : List Char :=
  if 0 ≤ e then '+' :: (Text.ofInt e).toList else (Text.ofInt e).toList

/-- How a decimal is written. Up to sixteen digits before the point, and up to
four zeros after it, the point stands in its place and a whole number keeps one
zero; any other decimal has one digit before the point and a signed exponent. -/
def Digits.text (d : Digits) : String :=
  let digits := Nat.toDigits 10 d.digits
  let zeros (n : Int) : List Char := List.replicate n.toNat '0'
  let point := (digits.length : Int) + d.exponent
  String.ofList <|
    if d.digits == 0 then "0.0".toList
    else if 0 ≤ d.exponent && point ≤ 16 then digits ++ zeros d.exponent ++ ".0".toList
    else if 0 < point && point ≤ 16 then
      digits.take point.toNat ++ '.' :: digits.drop point.toNat
    else if -5 < point && point ≤ 0 then "0.".toList ++ zeros (-point) ++ digits
    else
      let fraction := if digits.length == 1 then [] else '.' :: digits.drop 1
      digits.take 1 ++ fraction ++ 'e' :: exponentText (point - 1)

/-- A finite number in decimal notation; the zero below zero keeps its sign. -/
def floatText (f : Float) : String :=
  let isNegative := f.toBits.toNat / Nat.pow 2 63 == 1
  (if isNegative then "-" else "") ++ (ofFloat f).text

end ProxyLint.Decimal
