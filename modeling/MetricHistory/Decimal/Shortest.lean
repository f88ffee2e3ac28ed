import MetricHistory.Decimal.Binary64

/-!
# The shortest decimal that reads back

Among the decimals that round to a given double, `Decimal.shortest` picks one with the fewest
significant digits, and of those the one nearest to the double.

The decimals that round to a double `m * 2 ^ e` form an interval.  Its ends lie half way to
the neighbouring doubles and belong to it exactly when `m` is even.  For each number of digits,
starting with one, it is enough to look at the two decimals of that length around the double.
-/

namespace MetricHistory

/-- The number `coefficient * 10 ^ exponent`. -/
structure Decimal where
  coefficient : Nat
  exponent : Int
deriving DecidableEq, Repr

namespace Decimal

open Binary64 (scaled log2Ratio)

/-- The exponent of the greatest power of ten that is at most `num / den`, both positive. -/
def decade (num den : Nat) : Int :=
  let k := (log2Ratio num den * 30103).fdiv 100000
  let atLeast (j : Int) : Bool := let (n, d) := scaled 10 num den j; d ≤ n
  if atLeast (k + 1) then k + 1 else if atLeast k then k else k - 1

/-- The decimals that round to the double `m * 2 ^ e`, as two bounds over one denominator. -/
structure Interval where
  low : Nat
  high : Nat
  den : Nat
  closed : Bool

/-- The decimals that round to `m * 2 ^ e`, where `e` is at least -1074. -/
def Interval.around (m : Nat) (e : Int) : Interval :=
  let unit (n : Nat) : Nat × Nat := scaled 2 n 1 (2 - e)
  let below := if m = Nat.pow 2 52 ∧ -1074 < e then 4 * m - 1 else 4 * m - 2
  { low := (unit below).1, high := (unit (4 * m + 2)).1, den := (unit 1).2, closed := m % 2 == 0 }

/-- The number `num / den` rounds to the double of the interval. -/
def Interval.holds (i : Interval) (num den : Nat) : Bool :=
  if i.closed then i.low * den ≤ num * i.den && num * i.den ≤ i.high * den
  else i.low * den < num * i.den && num * i.den < i.high * den

/-- Drops the zeros at the end of the coefficient; `fuel` bounds their number. -/
def stripZeros : Nat → Decimal → Decimal
  | 0, d => d
  | fuel + 1, d =>
    if d.coefficient % 10 = 0 ∧ d.coefficient ≠ 0 then
      stripZeros fuel ⟨d.coefficient / 10, d.exponent + 1⟩
    else d

/-- The decimal with one digit at place `10 ^ k` and above that is nearest to `num / den`
and lies in the interval. -/
def nearest? (i : Interval) (num den : Nat) (k : Int) : Option Decimal :=
  let (n, d) := scaled 10 num den k
  let q := n / d
  let r := n % d
  let inside (c : Nat) : Bool := let (a, b) := scaled 10 c 1 (-k); i.holds a b
  match inside q, inside (q + 1) with
  | true, true => some (if 2 * r ≤ d then ⟨q, k⟩ else ⟨q + 1, k⟩)
  | true, false => some ⟨q, k⟩
  | false, true => some ⟨q + 1, k⟩
  | false, false => none

/-- Tries finer and finer decimal grids; `fuel` is the number of grids left. -/
def search (i : Interval) (num den : Nat) : Nat → Int → Decimal
  | 0, k => ⟨num * Nat.pow 10 (-k).toNat / den, k⟩
  | fuel + 1, k => (nearest? i num den k).getD (search i num den fuel (k - 1))

/-- The shortest decimal that rounds to the double `m * 2 ^ e`. -/
def shortest (m : Nat) (e : Int) : Decimal :=
  if m = 0 then ⟨0, 0⟩
  else
    let (num, den) := scaled 2 m 1 (-e)
    stripZeros 20 (search (Interval.around m e) num den 17 (decade num den))

end Decimal

end MetricHistory
