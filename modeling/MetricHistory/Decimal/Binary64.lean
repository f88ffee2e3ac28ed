import MetricHistory.Text.Basic

/-!
# Doubles as exact numbers

A finite double is an integer times a power of two.  This module decodes a double into that
form, rounds a quotient of natural numbers to the nearest double, and truncates a double to a
64-bit integer, all in exact arithmetic on `Nat` and `Int`.

* `Binary64.decode` gives sign, mantissa and exponent.
* `Binary64.ofRatio?` rounds to nearest, ties to even, and fails beyond the largest double.
* `Binary64.exponentSize` reads the digits of an exponent, no more of them than a double needs.
* `Binary64.asRead` is the number that the digits of a decimal are taken for when a double is read,
  and `Binary64.ofDigits?` the double.
* `Binary64.truncate` drops the fraction; a value outside the 64-bit range becomes the least
  integer of the range.
-/

namespace MetricHistory

/-- Reduces an integer to the 64-bit two's complement range. -/
def wrap64 (i : Int) : Int := i.bmod (Nat.pow 2 64)

/-- The least 64-bit integer. -/
def minInt64 : Int := -0x8000000000000000

/-- The greatest 64-bit integer. -/
def maxInt64 : Int := 0x7fffffffffffffff

/-- The quotient rounded to the nearest natural number, a tie going to the even one. -/
def roundDiv (num den : Nat) : Nat :=
  let q := num / den
  let r := num % den
  if 2 * r < den then q else if 2 * r > den then q + 1 else if q % 2 = 0 then q else q + 1

namespace Binary64

/-- What a double is: a number `± mantissa * 2 ^ exponent`, an infinity, or not a number. -/
inductive Value where
  | finite (negative : Bool) (mantissa : Nat) (exponent : Int)
  | infinite (negative : Bool)
  | nan
deriving DecidableEq, Repr

/-- Splits a double into sign, mantissa and exponent. -/
def decode (x : Float) : Value :=
  let bits := x.toBits.toNat
  let negative := bits / Nat.pow 2 63 == 1
  let biased : Nat := bits / Nat.pow 2 52 % 2048
  let fraction : Nat := bits % Nat.pow 2 52
  if biased = 2047 then if fraction = 0 then .infinite negative else .nan
  else if biased = 0 then .finite negative fraction (-1074)
  else .finite negative (Nat.pow 2 52 + fraction) ((biased : Int) - 1075)

/-- The double is neither infinite nor "not a number". -/
def isFinite (x : Float) : Bool :=
  match decode x with
  | .finite .. => true
  | _ => false

/-- `num / den * base ^ (-k)`, as a numerator and a denominator. -/
def scaled (base num den : Nat) (k : Int) : Nat × Nat :=
  if 0 ≤ k then (num, den * Nat.pow base k.toNat) else (num * Nat.pow base (-k).toNat, den)

/-- The exponent of the greatest power of two that is at most `num / den`, both positive. -/
def log2Ratio (num den : Nat) : Int :=
  let k : Int := (num.log2 : Int) - den.log2
  let (n, d) := scaled 2 num den k
  if d ≤ n then k else k - 1

/-- The bits of the double nearest to `num / den` without its sign; `none` beyond the largest
double. -/
def magnitude? (num den : Nat) : Option Nat :=
  if num = 0 then some 0
  else
    let e := max (log2Ratio num den - 52) (-1074)
    let (n, d) := scaled 2 num den e
    let q := roundDiv n d
    let bits := if q < Nat.pow 2 52 then q else (e + 1074).toNat * Nat.pow 2 52 + q
    if bits < 2047 * Nat.pow 2 52 then some bits else none

/-- The double nearest to a quotient, a tie going to the even mantissa. -/
def ofRatio? (negative : Bool) (num den : Nat) : Option Float :=
  (magnitude? num den).map fun bits =>
    Float.ofBits (UInt64.ofNat (if negative then Nat.pow 2 63 + bits else bits))

/-- The double nearest to `± coefficient * 10 ^ exponent`; `none` beyond the largest double.
Far outside the range of doubles the power of ten is not computed. -/
def ofDecimal? (negative : Bool) (coefficient : Nat) (exponent : Int) : Option Float :=
  let places : Int := (Nat.toDigits 10 coefficient).length
  if coefficient = 0 then ofRatio? negative 0 1
  else if places + exponent > 400 then none
  else if places + exponent < -400 then ofRatio? negative 0 1
  else
    let (n, d) := scaled 10 coefficient 1 (-exponent)
    ofRatio? negative n d

/-- The size of an exponent as it is read for a double.  Once it has five digits, the rest are
passed over: the number is far outside the range of doubles unless it is spelled with as many
digits. -/
def exponentSize (digits : Text) : Nat :=
  digits.foldl (fun n b => if n < 10000 then n * 10 + (b.toNat - 48) else n) 0

/-! ### Reading digits

The first digits of a decimal are multiplied with the first bits of a power of ten.  Where that does
not settle which double is nearest, the decimal is read digit by digit, and a limited number of digits
is kept. -/

/-- The first 128 bits of a power of ten, and the exponent of the power of two below it. -/
def leadingBits (q : Int) : Nat × Int :=
  let (n, d) := scaled 10 1 1 (-q)
  let e := log2Ratio n d
  let (n, d) := scaled 2 n d (e - 127)
  (n / d, e)

/-- The first bits of the power of ten settle which double is nearest to `m * 10 ^ q`, for a positive
`m` of 64 bits.  Only 64 of them are used when no carry from the others can reach the digits of the
double. -/
def isSettled (m : Nat) (q : Int) : Bool :=
  if q < -348 ∨ 347 < q then false
  else
    let word := Nat.pow 2 64
    let (ten, e) := leadingBits q
    let filled := m * Nat.pow 2 (63 - m.log2)
    let short := filled * (ten / word)
    let long := filled * ten
    let carries := short / word % 512 == 511 && word ≤ short % word + filled
    let product := if carries then long / word else short
    let high := product / word
    let top := high / Nat.pow 2 63
    let mantissa := high / Nat.pow 2 (9 + top)
    let exponent : Int := e + m.log2 + 1023 + top + if mantissa = Nat.pow 2 54 - 1 then 1 else 0
    let isOpen := carries && long / word % Nat.pow 2 73 == Nat.pow 2 73 - 1 &&
      word ≤ long % word + filled
    let isTie := product % word == 0 && high % 512 == 0 && mantissa % 4 == 1
    !isOpen && !isTie && 0 < exponent && exponent < 2047

/-- The bits of the double nearest to `m * 10 ^ q`. -/
def nearestBits (m : Nat) (q : Int) : Option Nat :=
  let (n, d) := scaled 10 m 1 (-q)
  magnitude? n d

/-- The first 19 digits settle which double is nearest, also when other digits follow them. -/
def isQuick (coefficient : Nat) (exponent : Int) : Bool :=
  let more := (Nat.toDigits 10 coefficient).length - 19
  let rest := Nat.pow 10 more
  let m := coefficient / rest
  let q := exponent + more
  isSettled m q && (coefficient % rest == 0 ||
    (isSettled (m + 1) q && nearestBits m q == nearestBits (m + 1) q))

/-- The number of digits that are kept. -/
def digitLimit : Nat := 800

/-- The number that digits are taken for, `behind` of which stand behind the point: its coefficient and
power of ten.  What follows the digits that are kept only counts as more than nothing.  When they all
stand before the point, its place is lost. -/
def asRead (behind coefficient : Nat) (exponent : Int) : Nat × Int :=
  let places := (Nat.toDigits 10 coefficient).length
  if places ≤ digitLimit + behind || isQuick coefficient exponent then (coefficient, exponent)
  else
    let rest := Nat.pow 10 (places - digitLimit)
    let kept := coefficient / rest
    if coefficient % rest = 0 then (kept, exponent + behind)
    else (10 * kept + 1, exponent + behind - 1)

/-- The double that digits are read as; `none` beyond the largest double. -/
def ofDigits? (negative : Bool) (behind coefficient : Nat) (exponent : Int) : Option Float :=
  let (coefficient, exponent) := asRead behind coefficient exponent
  ofDecimal? negative coefficient exponent

/-- The double nearest to an integer of at most 64 bits. -/
def ofInt (i : Int) : Float := (ofRatio? (i < 0) i.natAbs 1).getD 0

/-- The integer part of a number `mantissa * 2 ^ exponent`. -/
def wholePart (mantissa : Nat) (exponent : Int) : Nat :=
  if 0 ≤ exponent then mantissa * Nat.pow 2 exponent.toNat else mantissa / Nat.pow 2 (-exponent).toNat

/-- Drops the fraction of a double.  What does not fit into 64 bits becomes the least 64-bit
integer. -/
def truncate (x : Float) : Int :=
  match decode x with
  | .finite negative m e =>
    let n : Int := wholePart m e
    let i := if negative then -n else n
    if minInt64 ≤ i ∧ i ≤ maxInt64 then i else minInt64
  | _ => minInt64

end Binary64

end MetricHistory
