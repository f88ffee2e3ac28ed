import MetricHistory.Decimal.Binary64
import MetricHistory.Text.Basic

/-!
# Progress bars

What a progress bar writes to a terminal.  Every change redraws the line; the line at the end
stays until the bar is cleared, and a bar that was never drawn short of its end is not cleared.
-/

namespace MetricHistory

/-- A bar that counts up to `total`. -/
structure ProgressBar where
  label : Text
  total : Int
  /-- The number that was set last. -/
  requested : Int := 0
  /-- The number that is shown. -/
  shown : Int := 0
  /-- The end was drawn. -/
  finished : Bool := false
  /-- The bar was drawn short of its end. -/
  drawn : Bool := false

namespace ProgressBar

/-- The cells between the brackets. -/
def cells : Nat := 30

/-- The bar for a share of the total: a head behind the body, except when it is full. -/
def bar (filled : Int) : Text :=
  let body : Text :=
    if filled ≤ 0 then []
    else List.replicate (filled.toNat - 1) (Text.byte '=') ++
      [if filled = cells then Text.byte '=' else Text.byte '>']
  "[" ++ body ++ Text.replicate (cells - filled).toNat " " ++ "]"

/-- A number in at least four places. -/
def fourPlaces (i : Int) : Text :=
  let t := Text.ofInt i
  Text.replicate (4 - t.length) " " ++ t

/-- The share of the total that is shown. -/
def share (b : ProgressBar) : Float := Binary64.ofInt b.shown / Binary64.ofInt b.total

/-- The line of the bar. -/
def line (b : ProgressBar) : Text :=
  let filled := Binary64.truncate (b.share * Binary64.ofInt cells)
  let percent := Binary64.truncate (b.share * 100)
  "\r" ++ b.label ++ fourPlaces percent ++ "% " ++ bar filled ++ " (" ++ Text.ofInt b.shown ++
    "/" ++ Text.ofInt b.total ++ ") "

/-- Counts on by `n` and draws the bar.  A bar without a total draws nothing, nor does one
that was finished or has passed its total. -/
def add (b : ProgressBar) (n : Int) : ProgressBar × Text :=
  if b.total = 0 then (b, [])
  else
    let shown := if b.shown < b.total then b.shown + n else b.shown
    let b := { b with shown := shown, requested := b.requested + n }
    if b.finished ∨ b.shown > b.total then (b, [])
    else if b.shown = b.total then ({ b with finished := true }, b.line)
    else ({ b with drawn := true }, b.line)

/-- Sets the number. -/
def set (b : ProgressBar) (n : Int) : ProgressBar × Text := b.add (n - b.requested)

/-- Goes to the end. -/
def toEnd (b : ProgressBar) : ProgressBar × Text :=
  { b with shown := b.total, requested := b.total }.add 0

/-- What clears the line. -/
def clear (b : ProgressBar) : Text := if b.drawn then "\x1b[2K\r" else []

/-- The line that tells of an error. -/
def errorLine (label error : Text) : Text :=
  if error.isEmpty then [] else "  " ++ label ++ " error: " ++ error ++ "\n"

/-- Finishes the bar, with the text of an error or none. -/
def finish (b : ProgressBar) (error : Text) : Text :=
  let (b, end_) := b.toEnd
  end_ ++ b.clear ++ errorLine b.label error

/-- Everything that is written while a bar is set to some numbers and then finished. -/
def transcript (b : ProgressBar) (error : Text) : List Int → Text
  | [] => b.finish error
  | n :: ns =>
    let (b, t) := b.set n
    t ++ transcript b error ns

end ProgressBar

end MetricHistory
