import MetricHistory.Json.Parser
import MetricHistory.Settings.Basic

/-!
# Settings in JSON

`Settings.ofJsonText?` reads a JSON text into the entries of its top object.  Of two members
with one key the last one counts, every number is a float, and a number beyond the largest
double is refused.
-/

namespace MetricHistory

namespace Settings

/-- Stores a setting under a key, in the place of the old one or at the end. -/
def store (key : Text) (s : Setting) : List (Text × Setting) → List (Text × Setting)
  | [] => [(key, s)]
  | (k, old) :: rest => if k = key then (k, s) :: rest else (k, old) :: store key s rest

mutual

/-- The setting of a JSON value. -/
def ofJson? : Json → Option Setting
  | .null => some .null
  | .bool b => some (.bool b)
  | .number literal => (Literal.float? literal).map .float
  | .string body => some (.text (Literal.unescape body))
  | .array _ items => (ofItems? items).map .list
  | .object _ members => (ofMembers? [] members).map .table

/-- The settings of the elements of an array. -/
def ofItems? : JsonItems → Option (List Setting)
  | .nil => some []
  | .cons _ value _ rest => do
    let s ← ofJson? value
    let ss ← ofItems? rest
    some (s :: ss)

/-- The entries of an object behind those collected in `done`. -/
def ofMembers? (done : List (Text × Setting)) : JsonMembers → Option (List (Text × Setting))
  | .nil => some done
  | .cons _ key _ _ value _ rest => do
    let s ← ofJson? value
    ofMembers? (store (Literal.unescape key) s done) rest

end

/-- Reads a JSON text into the entries of its top object; `null` has none. -/
def ofJsonText? (t : Text) : Option (List (Text × Setting)) := do
  match ← ofJson? (← Json.parse? t) with
  | .null => some []
  | .table entries => some entries
  | _ => none

end Settings

end MetricHistory
