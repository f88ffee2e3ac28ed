import MetricHistory.Decimal.Binary64
import MetricHistory.Text.Basic

/-!
# Durations

A duration is a whole number of nanoseconds.  `Duration.render` writes it with units, as in
`10m0s`, `1.5s` and `250ms`.
-/

namespace MetricHistory

/-- A span of time in nanoseconds. -/
abbrev Duration := Int

namespace Duration

/-- One second. -/
def second : Duration := 1000000000

/-- One minute. -/
def minute : Duration := 60 * second

/-- One hour. -/
def hour : Duration := 60 * minute

/-- A number of units, reduced to the 64-bit range of durations. -/
def times (n : Int) (unit : Duration) : Duration := wrap64 (n * unit)

/-- The nearest duration of 64 bits. -/
def saturate (d : Int) : Duration := max minInt64 (min maxInt64 d)

/-- `n / Nat.pow 10 places` with as few decimals as it has. -/
def decimals (places n : Nat) : Text :=
  let ds := Text.ofNatPadded places (n % Nat.pow 10 places)
  let fraction := (ds.reverse.dropWhile (· == Text.byte '0')).reverse
  let point : Text := if fraction.isEmpty then "" else "." ++ fraction
  Text.ofNat (n / Nat.pow 10 places) ++ point

/-- The text of a duration that is not negative: below a second in one unit, from a second on
in hours, minutes and seconds. -/
def renderNat (n : Nat) : Text :=
  if n = 0 then "0s"
  else if n < 1000 then Text.ofNat n ++ "ns"
  else if n < 1000000 then decimals 3 n ++ "µs"
  else if n < 1000000000 then decimals 6 n ++ "ms"
  else
    let seconds := decimals 9 (n % 60000000000) ++ "s"
    let minutes := n / 60000000000
    if minutes = 0 then seconds
    else if minutes < 60 then Text.ofNat minutes ++ "m" ++ seconds
    else Text.ofNat (minutes / 60) ++ "h" ++ Text.ofNat (minutes % 60) ++ "m" ++ seconds

/-- The text of a duration. -/
def render (d : Duration) : Text :=
  if d < 0 then "-" ++ renderNat d.natAbs else renderNat d.natAbs

end Duration

end MetricHistory
