import ProxyLint.Text

/-!
# Scalars of a TOML document

The values that are written as one word: truth values, numbers, dates and times.
A word is accepted or refused as a whole. Integers have a value; of the other
numbers and of dates only the text is kept.

## Main definitions

* `ProxyLint.Toml.Scalar` — a value without parts.
* `ProxyLint.Toml.integer?` — the integer that a word spells.
* `ProxyLint.Toml.isFloat`, `ProxyLint.Toml.isMoment` — the other classes of words.
* `ProxyLint.Toml.Scalar.ofWord?` — the value of a word.
-/

set_option relaxedAutoImplicit false
set_option autoImplicit false

namespace ProxyLint.Toml

/-- A value without parts. -/
inductive Scalar where
  | text (s : String)
  | integer (n : Int)
  | boolean (b : Bool)
  /-- A floating-point number as written. -/
  | float (written : String)
  /-- A date, a time of day or both, as written. -/
  | moment (written : String)
  deriving DecidableEq, Repr, Inhabited

/-! ### Numbers -/

/-- The digits of a number whose digits may stand in groups, with one underscore
between two groups. -/
def ungroup? (isDigit : Char → Bool) (cs : List Char) : Option (List Char) :=
  let groups := cs.splitOn '_'
  if groups.all fun g => !g.isEmpty && g.all isDigit then some groups.flatten else none

/-- The sign at the front, and what follows it. -/
def signed : List Char → Bool × List Char
  | '-' :: cs => (true, cs)
  | '+' :: cs => (false, cs)
  | cs => (false, cs)

/-- The digits of a decimal number. A zero at the front stands alone. -/
def decimal? (cs : List Char) : Option (List Char) :=
  if cs.head? == some '0' && cs.length != 1 then none else ungroup? Char.isDigit cs

/-- The value of digits of a base. -/
def baseValue (base : Nat) (ds : List Char) : Nat :=
  ds.foldl (fun n d => base * n + (Text.hexValue? d).getD 0) 0

/-- The natural number that digits of a base spell. -/
def inBase? (base : Nat) (cs : List Char) : Option Int :=
  let isDigit (c : Char) : Bool := (Text.hexValue? c).any fun d => d < base
  (ungroup? isDigit cs).map fun ds => (baseValue base ds : Int)

/-- The integer that a word spells, if it fits 64 bits. Hexadecimal, octal and
binary numbers have no sign. -/
def integer? (cs : List Char) : Option Int :=
  let value : Option Int :=
    match cs with
    | '0' :: 'x' :: ds => inBase? 16 ds
    | '0' :: 'o' :: ds => inBase? 8 ds
    | '0' :: 'b' :: ds => inBase? 2 ds
    | _ =>
      let (isNegative, ds) := signed cs
      (decimal? ds).map fun ds =>
        let n := Int.ofNat (Text.digitsValue ds)
        if isNegative then -n else n
  value.filter Text.fitsInt64

/-- Whether `digits · 10 ^ exponent` rounds to a number above the greatest
finite one of 64 bits. -/
def overflows (digits : Nat) (exponent : Int) : Bool :=
  let bound := Nat.pow 2 1024 - Nat.pow 2 970
  let size := (Nat.toDigits 10 digits).length + exponent
  if digits == 0 || size < 300 then false
  else if 320 < size then true
  else if 0 ≤ exponent then bound ≤ digits * Nat.pow 10 exponent.toNat
  else bound * Nat.pow 10 (-exponent).toNat ≤ digits

/-- The digits after the point, if there is a point. -/
def fraction? : List Char → Option (List Char)
  | [] => some []
  | _ :: ds => ungroup? Char.isDigit ds

/-- The value of an exponent, if there is one. -/
def exponent? : List Char → Option Int
  | [] => some 0
  | _ :: cs =>
    let (isNegative, ds) := signed cs
    (ungroup? Char.isDigit ds).map fun ds =>
      let n := Int.ofNat (Text.digitsValue ds)
      if isNegative then -n else n

/-- Whether a word is a decimal number with a fraction or an exponent. A
positive one has to be finite. -/
def isDecimalFloat (cs : List Char) : Bool :=
  let (isNegative, body) := signed cs
  let (mantissa, exponent) := body.span fun c => c != 'e' && c != 'E'
  let (whole, fraction) := mantissa.span fun c => c != '.'
  if fraction.isEmpty && exponent.isEmpty then false
  else
    match decimal? whole, fraction? fraction, exponent? exponent with
    | some ws, some fs, some e =>
      isNegative || !overflows (Text.digitsValue (ws ++ fs)) (e - (fs.length : Int))
    | _, _, _ => false

/-- Whether a word is a floating-point number. -/
def isFloat (cs : List Char) : Bool :=
  let body := String.ofList (signed cs).2
  body == "inf" || body == "nan" || isDecimalFloat cs

/-! ### Dates and times -/

/-- A number of two digits that is at most `max`. -/
def isTwoDigits (a b : Char) (max : Nat) : Bool :=
  a.isDigit && b.isDigit && Text.digitsValue [a, b] ≤ max

/-- The number of days of a month. -/
def daysIn (year month : Nat) : Nat :=
  let isLeap := year % 4 == 0 && (year % 100 != 0 || year % 400 == 0)
  if month == 2 then if isLeap then 29 else 28
  else if [4, 6, 9, 11].contains month then 30
  else 31

/-- Whether a word is a date, such as `2024-02-29`. -/
def isDate : List Char → Bool
  | [y1, y2, y3, y4, '-', m1, m2, '-', d1, d2] =>
    let digits := [y1, y2, y3, y4, m1, m2, d1, d2]
    let year := Text.digitsValue [y1, y2, y3, y4]
    let month := Text.digitsValue [m1, m2]
    let day := Text.digitsValue [d1, d2]
    digits.all Char.isDigit && 1 ≤ month && month ≤ 12 && 1 ≤ day && day ≤ daysIn year month
  | _ => false

/-- Whether a word is a time of day, such as `07:32:00.5`. -/
def isTime : List Char → Bool
  | h1 :: h2 :: ':' :: m1 :: m2 :: ':' :: s1 :: s2 :: fraction =>
    let isFraction :=
      match fraction with
      | [] => true
      | c :: ds => c == '.' && !ds.isEmpty && ds.all Char.isDigit
    isTwoDigits h1 h2 23 && isTwoDigits m1 m2 59 && isTwoDigits s1 s2 60 && isFraction
  | _ => false

/-- Whether a word is the offset of a time zone, such as `Z` or `+01:00`. -/
def isOffset : List Char → Bool
  | [c] => c == 'Z' || c == 'z'
  | [sign, h1, h2, ':', m1, m2] =>
    (sign == '+' || sign == '-') && isTwoDigits h1 h2 23 && isTwoDigits m1 m2 59
  | _ => false

/-- Whether a word is a time of day that may have an offset. -/
def isZonedTime (cs : List Char) : Bool :=
  let (time, offset) := cs.span fun c => c.isDigit || c == ':' || c == '.'
  isTime time && (offset.isEmpty || isOffset offset)

/-- Whether a word is a date, a time of day or both. -/
def isMoment (cs : List Char) : Bool :=
  isDate cs || isTime cs ||
    match cs.drop 10 with
    | c :: time => isDate (cs.take 10) && (c == 'T' || c == 't') && isZonedTime time
    | [] => false

/-! ### Words -/

/-- The value of a word. -/
def Scalar.ofWord? (cs : List Char) : Option Scalar :=
  let word := String.ofList cs
  if word == "true" then some (.boolean true)
  else if word == "false" then some (.boolean false)
  else
    match integer? cs with
    | some n => some (.integer n)
    | none =>
      if isFloat cs then some (.float word)
      else if isMoment cs then some (.moment word)
      else none

end ProxyLint.Toml
