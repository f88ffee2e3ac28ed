import MetricHistory.Calendar.Date
import MetricHistory.Calendar.Duration

/-!
# Points in time

A `Time` is an instant together with the offset from UTC of the clock it was read from.  Times
are compared as instants and written with their offset.

* `Time.parse?` reads the RFC 3339 notation, leniently: an hour may have one digit, a fraction
  may follow a comma, and offsets go up to 24 hours and 60 minutes.
* `Time.rfc3339` writes it, with the fraction of the second or without.
-/

namespace MetricHistory

/-- An instant, in seconds and nanoseconds since 1970-01-01T00:00:00Z, and a zone offset in
seconds. -/
structure Time where
  seconds : Int
  nanos : Nat := 0
  offset : Int := 0
deriving DecidableEq, Repr

namespace Time

/-- The start of year 1, which stands for a time that was not given. -/
def zero : Time := { seconds := -62135596800 }

instance : Inhabited Time := ⟨zero⟩

/-- The instant comes strictly later. -/
def after (a b : Time) : Bool := b.seconds < a.seconds || (a.seconds == b.seconds && b.nanos < a.nanos)

/-- The time is the start of year 1. -/
def isZero (t : Time) : Bool := t.seconds == zero.seconds && t.nanos == 0

/-- The seconds shown by a clock with the time's offset. -/
def clockSeconds (t : Time) : Int := t.seconds + t.offset

/-- The date shown by a clock with the time's offset. -/
def date (t : Time) : Date := Date.ofDays (t.clockSeconds / 86400)

/-- Midnight at the start of a day, on a clock with the given offset. -/
def midnight (offset : Int) (d : Date) : Time :=
  { seconds := d.toDays * 86400 - offset, offset := offset }

/-- The time in nanoseconds since the epoch. -/
def toNanos (t : Time) : Int := t.seconds * 1000000000 + t.nanos

/-- The time that lies a duration later. -/
def add (t : Time) (d : Duration) : Time :=
  let n := t.toNanos + d
  { t with seconds := n / 1000000000, nanos := (n % 1000000000).toNat }

/-- The time `days` calendar days later on the same clock. -/
def addDays (t : Time) (days : Int) : Time := { t with seconds := t.seconds + days * 86400 }

/-- The duration from `u` to `t`; beyond 64 bits the nearest duration. -/
def sub (t u : Time) : Duration := Duration.saturate (t.toNanos - u.toNanos)

/-- Hour, minute and second shown by a clock with the time's offset. -/
def clock (t : Time) : Nat × Nat × Nat :=
  let s := (t.clockSeconds % 86400).toNat
  (s / 3600, s / 60 % 60, s % 60)

/-- The zone of a time: `Z` for UTC, else the offset in hours and whole minutes. -/
def zone (offset : Int) : Text :=
  let minutes := offset.natAbs / 60
  if offset = 0 then "Z"
  else (if offset ≤ -60 then "-" else "+" : Text) ++ Text.ofNatPadded 2 (minutes / 60) ++ ":" ++
    Text.ofNatPadded 2 (minutes % 60)

/-- The fraction of the second behind a point, without zeros at its end. -/
def fractionText (nanos : Nat) : Text :=
  if nanos = 0 then ""
  else "." ++ ((Text.ofNatPadded 9 nanos).reverse.dropWhile (· == Text.byte '0')).reverse

/-- `YYYY-MM-DDThh:mm:ss`, the fraction if asked for, and the zone. -/
def rfc3339 (withFraction : Bool) (t : Time) : Text :=
  let (h, m, s) := t.clock
  t.date.iso ++ "T" ++ Text.ofNatPadded 2 h ++ ":" ++ Text.ofNatPadded 2 m ++ ":" ++
    Text.ofNatPadded 2 s ++ (if withFraction then fractionText t.nanos else "") ++ zone t.offset

/-- The time can be written in strict RFC 3339: four digits of year, less than 24 hours of
offset. -/
def isStrict (t : Time) : Bool :=
  let year := t.date.year
  0 ≤ year && year ≤ 9999 && t.offset.natAbs / 3600 < 24

/-! ### Reading -/

/-- One or two digits. -/
def shortDigits? (t : Text) : Option (Nat × Text) :=
  match Date.digits? 2 t with
  | some r => some r
  | none => Date.digits? 1 t

/-- The nanoseconds of a fraction at the front, zero without one.  Digits after the ninth are
dropped. -/
def fraction (t : Text) : Nat × Text :=
  match t with
  | [] => (0, t)
  | b :: r =>
    let ds := r.takeWhile Text.isDigit
    if (b = Text.byte '.' ∨ b = Text.byte ',') ∧ !ds.isEmpty then
      let nine := (ds ++ List.replicate 9 (Text.byte '0')).take 9
      ((Text.nat? nine).getD 0, r.dropWhile Text.isDigit)
    else (0, t)

/-- The offset that ends a time, in seconds. -/
def zone? (t : Text) : Option Int :=
  if t = Text.ofString "Z" then some 0
  else
    match t with
    | [] => none
    | sign :: t => do
      let (h, t) ← Date.digits? 2 t
      let t ← Date.skip? ":" t
      let (m, t) ← Date.digits? 2 t
      let size : Int := (h * 60 + m) * 60
      if !t.isEmpty || h > 24 || m > 60 then none
      else if sign = Text.byte '+' then some size
      else if sign = Text.byte '-' then some (-size)
      else none

/-- Reads a time in RFC 3339 notation. -/
def parse? (t : Text) : Option Time := do
  let (d, t) ← Date.front? t
  let t ← Date.skip? "T" t
  let (h, t) ← shortDigits? t
  let t ← Date.skip? ":" t
  let (m, t) ← Date.digits? 2 t
  let t ← Date.skip? ":" t
  let (s, t) ← Date.digits? 2 t
  let (nanos, t) := fraction t
  let offset ← zone? t
  if d.isValid && h < 24 && m < 60 && s < 60 then
    some {
      seconds := d.toDays * 86400 + h * 3600 + m * 60 + s - offset
      nanos := nanos
      offset := offset }
  else none

end Time

end MetricHistory
