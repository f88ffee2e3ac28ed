import MetricHistory.Decimal.Shortest
import MetricHistory.Text.Basic

/-!
# Number texts

The notations in which numbers are written.

* `Decimal.plain` and `Decimal.scientific` lay out a decimal with all of its digits.
* `NumberStyle` decides between them by the size of the number; `jsonNumber` and
  `displayNumber` are the two styles in use.
* `fixed` and `fixedScientific` write a double with a given number of places, rounding its
  exact value with ties to even.
-/

namespace MetricHistory

namespace Decimal

/-- The decimal digits of the coefficient. -/
def digits (d : Decimal) : Text := Text.ofNat d.coefficient

/-- The position of the first digit: the number is at least `10 ^ magnitude`. -/
def magnitude (d : Decimal) : Int := d.exponent + d.digits.length - 1

/-- Positional notation. -/
def plain (d : Decimal) : Text :=
  let ds := d.digits
  if 0 ≤ d.exponent then
    if d.coefficient = 0 then "0" else ds ++ List.replicate d.exponent.toNat (Text.byte '0')
  else
    let places := (-d.exponent).toNat
    if places < ds.length then
      ds.take (ds.length - places) ++ "." ++ ds.drop (ds.length - places)
    else "0." ++ List.replicate (places - ds.length) (Text.byte '0') ++ ds

/-- Scientific notation: one digit, the point, the other digits, and an exponent with its sign
and at least `width` digits. -/
def scientific (width : Nat) (d : Decimal) : Text :=
  let m := if d.coefficient = 0 then 0 else d.magnitude
  let tail := d.digits.drop 1
  let fraction : Text := if tail.isEmpty then "" else "." ++ tail
  let sign : Text := if m < 0 then "-" else "+"
  d.digits.take 1 ++ fraction ++ "e" ++ sign ++ Text.ofNatPadded width m.natAbs

end Decimal

/-- When a number is written in scientific notation: below `10 ^ least`, or from `10 ^ limit`
on; and how many digits its exponent has at least. -/
structure NumberStyle where
  least : Int
  limit : Int
  exponentWidth : Nat

namespace NumberStyle

/-- The shortest text of a double that reads back; zero keeps its sign. -/
def render (s : NumberStyle) (x : Float) : Text :=
  match Binary64.decode x with
  | .nan => "NaN"
  | .infinite negative => if negative then "-Inf" else "+Inf"
  | .finite negative m e =>
    let d := Decimal.shortest m e
    let body :=
      if m ≠ 0 ∧ (d.magnitude < s.least ∨ s.limit ≤ d.magnitude) then
        d.scientific s.exponentWidth
      else d.plain
    if negative then "-" ++ body else body

end NumberStyle

/-- Numbers in documents: positional from `1e-6` up to `1e21`, exponents without padding. -/
def jsonNumber : NumberStyle := ⟨-6, 21, 1⟩

/-- Numbers in log fields: positional from `1e-4` up to `1e6`, exponents of two digits. -/
def displayNumber : NumberStyle := ⟨-4, 6, 2⟩

/-- The shortest positional text of a double, never with an exponent. -/
def plainNumber (x : Float) : Text :=
  match Binary64.decode x with
  | .finite negative m e => (if negative then "-" else "") ++ (Decimal.shortest m e).plain
  | .infinite negative => if negative then "-Inf" else "+Inf"
  | .nan => "NaN"

/-- A number `m * 2 ^ e` rounded to a multiple of `10 ^ -places`. -/
def roundPlaces (places : Nat) (m : Nat) (e : Int) : Nat :=
  let (n, d) := Binary64.scaled 2 m 1 (-e)
  roundDiv (n * Nat.pow 10 places) d

/-- A double with exactly `places` digits after the point. -/
def fixed (places : Nat) (x : Float) : Text :=
  match Binary64.decode x with
  | .nan => "NaN"
  | .infinite negative => if negative then "-Inf" else "+Inf"
  | .finite negative m e =>
    let ds := Text.ofNatPadded (places + 1) (roundPlaces places m e)
    let cut := ds.length - places
    let sign : Text := if negative then "-" else ""
    let fraction : Text := if places = 0 then "" else "." ++ ds.drop cut
    sign ++ ds.take cut ++ fraction

/-- A double in fixed notation with its sign always written. -/
def fixedSigned (places : Nat) (x : Float) : Text :=
  let t := fixed places x
  if t.startsWith "-" || t.startsWith "+" then t else "+" ++ t

/-- A double in scientific notation with exactly `places` digits after the point and at least
two exponent digits. -/
def fixedScientific (places : Nat) (x : Float) : Text :=
  match Binary64.decode x with
  | .nan => "NaN"
  | .infinite negative => if negative then "-Inf" else "+Inf"
  | .finite negative m e =>
    let sign : Text := if negative then "-" else ""
    let zeros : Text := if places = 0 then "" else "." ++ List.replicate places (Text.byte '0')
    if m = 0 then sign ++ "0" ++ zeros ++ "e+00"
    else
      let (num, den) := Binary64.scaled 2 m 1 (-e)
      let k := Decimal.decade num den
      let (n, d) := Binary64.scaled 10 num den (k - places)
      let c := roundDiv n d
      let (c, k) := if c < Nat.pow 10 (places + 1) then (c, k) else (c / 10, k + 1)
      let ds := Text.ofNat c
      let fraction : Text := if places = 0 then "" else "." ++ ds.drop 1
      let exponentSign : Text := if k < 0 then "-" else "+"
      sign ++ ds.take 1 ++ fraction ++ "e" ++ exponentSign ++ Text.ofNatPadded 2 k.natAbs

end MetricHistory
