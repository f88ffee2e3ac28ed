import MetricHistory.Failure

/-!
# Measurements

The outcome of measuring the files of a change.  Having nothing to measure is no failure, and a
failure only makes the measurement unavailable.
-/

namespace MetricHistory

/-- The kinds of outcome. -/
inductive MeasurementStatus where
  | measured
  | empty
  | unavailable
deriving DecidableEq, Repr

namespace MeasurementStatus

/-- The word for a status. -/
def name : MeasurementStatus → Text
  | measured => "measured"
  | empty => "empty"
  | unavailable => "unavailable"

/-- The number of a status. -/
def number : MeasurementStatus → Int
  | measured => 0
  | empty => 1
  | unavailable => 2

/-- The status with a number. -/
def ofNumber? (n : Int) : Option MeasurementStatus :=
  [measured, empty, unavailable].find? fun s => s.number == n

/-- The word for the status with a number, whether or not there is one. -/
def nameOfNumber (n : Int) : Text :=
  match ofNumber? n with
  | some s => s.name
  | none => "Status(" ++ Text.ofInt n ++ ")"

end MeasurementStatus

/-- The outcome of measuring the files of a change. -/
inductive Measurement where
  | measured (fragment : Fragment)
  | empty
  | unavailable (reason : Failure)

namespace Measurement

/-- The kind of an outcome. -/
def status : Measurement → MeasurementStatus
  | measured _ => .measured
  | empty => .empty
  | unavailable _ => .unavailable

/-- The measured values, all zero when there are none. -/
def fragment : Measurement → Fragment
  | measured f => f
  | _ => {}

/-- Why there are no values though there should be. -/
def failure? : Measurement → Option Failure
  | unavailable f => some f
  | _ => none

/-- The outcome of an analysis. -/
def ofAnalysis : Except Failure Document → Measurement
  | .ok d => .measured d.fragment
  | .error f => if f.isNoSources then .empty else .unavailable f

end Measurement

end MetricHistory
