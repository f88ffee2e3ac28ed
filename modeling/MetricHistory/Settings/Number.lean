import MetricHistory.Decimal.Binary64
import MetricHistory.Text.Basic

/-!
# Numbers in settings

Integers and floating point numbers as people write them in settings files.

* `Settings.integer?` reads an integer whose base shows in its spelling: `0x1f`, `0b101`,
  `0o17`, `017` and `15` are all read.
* `Settings.separatorsFit` says whether underscores stand only where they divide digits.
* `Settings.decimal?` reads a decimal number with optional fraction and exponent.
-/

namespace MetricHistory

namespace Settings

/-- An optional sign at the front: whether it is a minus, and the rest. -/
def signed (t : Text) : Bool × Text :=
  match t with
  | [] => (false, t)
  | b :: r =>
    if b = Text.byte '-' then (true, r) else if b = Text.byte '+' then (false, r) else (false, t)

/-- The base that the front of a number without sign shows, with the digits that follow. -/
def basePart (t : Text) : Nat × Text :=
  match t with
  | z :: m :: d :: r =>
    if z = Text.byte '0' then
      let mark := Text.lowerByte m
      if mark = Text.byte 'b' then (2, d :: r)
      else if mark = Text.byte 'o' then (8, d :: r)
      else if mark = Text.byte 'x' then (16, d :: r)
      else (8, m :: d :: r)
    else (10, t)
  | z :: r => if z = Text.byte '0' then (8, z :: r) else (10, t)
  | [] => (10, t)

/-- The byte that separates digits. -/
def underscore : UInt8 := Text.byte '_'

/-- Every underscore of a run of digits stands between two digits; the run may start with one
when a base mark comes before it. -/
def separatorsFit (afterDigit : Bool) : Text → Bool
  | [] => true
  | b :: t =>
    if b = underscore then
      afterDigit && t.head? != some underscore && !t.isEmpty && separatorsFit false t
    else separatorsFit true t

/-- Reads an integer whose base shows in its spelling.  Underscores may separate digits. -/
def integer? (t : Text) : Option Int :=
  let (negative, body) := signed t
  let (base, digits) := basePart body
  let marked := digits.length + 2 == body.length
  if !separatorsFit (marked || digits.length + 1 == body.length) digits then none
  else
    (Text.digits? base (digits.filter (· != underscore))).map fun n =>
      if negative then -(n : Int) else n

/-- The integer has 64 bits. -/
def fits64 (i : Int) : Bool := minInt64 ≤ i && i ≤ maxInt64

/-- The number `sign whole.fraction e exponent` nearest to its decimal spelling.  At least one
digit stands before the exponent; `none` also when the number is beyond the largest double. -/
def decimal? (t : Text) : Option Float := do
  let (negative, t) := signed t
  let whole := t.takeWhile Text.isDigit
  let t := t.dropWhile Text.isDigit
  let (fraction, t) :=
    match t with
    | [] => ([], t)
    | b :: r =>
      if b = Text.byte '.' then (r.takeWhile Text.isDigit, r.dropWhile Text.isDigit) else ([], t)
  let coefficient ← Text.nat? (whole ++ fraction)
  let exponent : Int ←
    match t with
    | [] => some 0
    | b :: r =>
      if Text.lowerByte b = Text.byte 'e' then
        let (down, r) := signed r
        (Text.nat? r).map fun _ =>
          let size : Int := Binary64.exponentSize r
          if down then -size else size
      else none
  Binary64.ofDigits? negative fraction.length coefficient (exponent - fraction.length)

end Settings

end MetricHistory
