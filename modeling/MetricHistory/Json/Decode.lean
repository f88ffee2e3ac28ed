import MetricHistory.Calendar.Time
import MetricHistory.Json.Parser
import MetricHistory.Text.Case

/-!
# Records from JSON objects

A record takes its fields from the members of an object.  Keys are compared up to letter case,
members are taken in document order, so the last match of a field wins, and `null` leaves a
field as it is.  A value of the wrong kind makes the whole record fail.

* `Json.matching` lists the values given for a field.
* `Json.decodeFloat`, `Json.decodeInt`, `Json.decodeText`, `Json.decodeTime` and
  `Json.decodeList` read the values of a field, starting from what the field holds.
-/

namespace MetricHistory

namespace Json

/-- The values of all members whose key is `name` up to letter case, in document order. -/
def matching (name : Text) (members : List (Text × Json)) : List Json :=
  (members.filter fun (key, _) => key.equalFold name).map (·.2)

/-- The value of the last member whose key is exactly `name`. -/
def lookup (name : Text) (members : List (Text × Json)) : Option Json :=
  (members.filter fun (key, _) => key == name).getLast?.map (·.2)

/-- Reads a number into a field. -/
def decodeFloat (start : Float) : Json → Option Float
  | .null => some start
  | .number literal => Literal.float? literal
  | _ => none

/-- Reads a number into a field that may stay empty. -/
def decodeFloat? : Json → Option (Option Float)
  | .null => some none
  | .number literal => (Literal.float? literal).map some
  | _ => none

/-- Reads a 64-bit integer into a field.  Fractions and exponents are refused. -/
def decodeInt (start : Int) : Json → Option Int
  | .null => some start
  | .number literal => Literal.int64? literal
  | _ => none

/-- Reads a text into a field. -/
def decodeText (start : Text) : Json → Option Text
  | .null => some start
  | .string body => some (Literal.unescape body)
  | _ => none

/-- Reads a time into a field. -/
def decodeTime (start : Time) : Json → Option Time
  | .null => some start
  | .string body => Time.parse? body
  | _ => none

/-- Reads an element into each place of a list.  A place that was filled before keeps what the
element does not give. -/
def decodeItems {α : Type} (zero : α) (decode : α → Json → Option α) :
    List α → List Json → Option (List α)
  | _, [] => some []
  | old, j :: js => do
    let a ← decode (old.headD zero) j
    let as ← decodeItems zero decode old.tail js
    some (a :: as)

/-- Reads an array into a list field. -/
def decodeList {α : Type} (zero : α) (decode : α → Json → Option α) (start : List α) :
    Json → Option (List α)
  | .null => some []
  | .array _ items => decodeItems zero decode start (itemList items)
  | _ => none

/-- Reads all values given for a field, one after the other. -/
def decodeAll {α : Type} (decode : α → Json → Option α) (start : α) (values : List Json) :
    Option α :=
  values.foldlM decode start

/-- Reads a field of a record. -/
def field {α : Type} (name : Text) (decode : α → Json → Option α) (start : α)
    (members : List (Text × Json)) : Option α :=
  decodeAll decode start (matching name members)

/-- The text of the value given for a field, empty without one. -/
def rawField (name : Text) (start : Text) (members : List (Text × Json)) : Text :=
  match (matching name members).getLast? with
  | none => start
  | some j => j.source

/-- Reads a record from an object; `null` leaves it as it is. -/
def decodeRecord {α : Type} (decode : α → List (Text × Json) → Option α) (start : α) :
    Json → Option α
  | .null => some start
  | .object _ members => decode start (memberList members)
  | _ => none

end Json

end MetricHistory
