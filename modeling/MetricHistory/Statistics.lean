import MetricHistory.Decimal.Binary64

/-!
# Statistics of series

* `percentile?` picks an element of a sorted list by its rank.
* `Trend.ofSeries` fits a straight line to a series by least squares.

The sums of the fit are corrected by the sums of the deviations, which would vanish in exact
arithmetic.
-/

namespace MetricHistory

/-- The index of the `p`-th percentile in a list of `n` elements: `p * n / 100`, rounded toward
zero, at most the last index; `none` when it is negative. -/
def percentileIndex? (p : Int) (n : Nat) : Option Nat :=
  let i := (wrap64 (p * n)).tdiv 100
  if i < 0 then none else some (min i.toNat (n - 1))

/-- The `p`-th percentile of a sorted list, `empty` for the empty list; `none` when the index is
negative. -/
def percentile? {α : Type} (empty : α) (sorted : List α) (p : Int) : Option α :=
  if sorted.isEmpty then some empty
  else (percentileIndex? p sorted.length).bind (sorted[·]?)

/-- A straight line fitted to a series, and how well it fits. -/
structure Trend where
  slope : Float := 0
  intercept : Float := 0
  rSquared : Float := 0
  correlation : Float := 0

namespace Trend

/-- The sum of a series, from the front. -/
def sum (xs : List Float) : Float := xs.foldl (· + ·) 0

/-- The length of a series as a number. -/
def size (xs : List Float) : Float := Binary64.ofInt xs.length

/-- The arithmetic mean. -/
def mean (xs : List Float) : Float := sum xs / size xs

/-- The sum of the products of deviations from the two means. -/
def deviationProducts (xs ys : List Float) : Float :=
  let dx := xs.map (· - mean xs)
  let dy := ys.map (· - mean ys)
  sum (List.zipWith (· * ·) dx dy) - sum dx * sum dy / size xs

/-- The sample covariance of two series of the same length. -/
def covariance (xs ys : List Float) : Float := deviationProducts xs ys / (size xs - 1)

/-- The coefficient of determination of a line. -/
def determination (xs ys : List Float) (intercept slope : Float) : Float :=
  let squared (ds : List Float) : Float := sum (ds.map fun d => d * d)
  let residuals := List.zipWith (fun x y => y - (intercept + slope * x)) xs ys
  1 - squared residuals / squared (ys.map (· - mean ys))

/-- A number that cannot be written counts as zero. -/
def orZero (x : Float) : Float := if Binary64.isFinite x then x else 0

/-- The least squares fit of a series against 0, 1, 2, ...  Fewer than two values have no
trend, and a constant series is fitted exactly by a flat line. -/
def ofSeries (ys : List Float) : Trend :=
  let xs := (List.range ys.length).map fun (i : Nat) => Binary64.ofInt i
  if ys.length < 2 then {}
  else if covariance ys ys == 0 then { intercept := ys.headD 0, rSquared := 1 }
  else
    let slope := covariance xs ys / covariance xs xs
    let intercept := mean ys - slope * mean xs
    { slope := orZero slope
      intercept := orZero intercept
      rSquared := orZero (determination xs ys intercept slope)
      correlation := orZero (deviationProducts xs ys /
        (deviationProducts xs xs * deviationProducts ys ys).sqrt) }

end Trend

end MetricHistory
