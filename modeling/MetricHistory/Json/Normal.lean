import MetricHistory.Decimal.Layout
import MetricHistory.Json.Basic

/-!
# Normal forms of JSON values

`Json.normal` spells a value in one way only: numbers by the shortest digits of their double,
strings with the fewest escapes that are safe for markup, the members of objects in the order of
their keys, the last of several with one key, and no blank space.  `Json.display` writes a value
for people.
-/

namespace MetricHistory

namespace Json

/-- Stores a member, in the place of the old one with its key or before the first greater key. -/
def insertMember {α : Type} (key : Text) (value : α) : List (Text × α) → List (Text × α)
  | [] => [(key, value)]
  | (k, v) :: rest =>
    if k = key then (key, value) :: rest
    else if Text.le key k then (key, value) :: (k, v) :: rest
    else (k, v) :: insertMember key value rest

/-- The value of a number literal, zero beyond the largest double. -/
def floatOf (literal : Text) : Float := (Literal.float? literal).getD 0

mutual

/-- The normal form of a value. -/
def normal : Json → Json
  | .null => .null
  | .bool b => .bool b
  | .number literal => .number (jsonNumber.render (floatOf literal))
  | .string body => ofText true (Literal.unescape body)
  | .array _ items => list (normalItems items)
  | .object _ members =>
    record ((normalMembers [] members).map fun (k, j) => (Literal.escape true k, j))

/-- The normal forms of the elements of an array. -/
def normalItems : JsonItems → List Json
  | .nil => []
  | .cons _ value _ rest => normal value :: normalItems rest

/-- The members of an object by key, added to those in `done`. -/
def normalMembers (done : List (Text × Json)) : JsonMembers → List (Text × Json)
  | .nil => done
  | .cons _ key _ _ value _ rest =>
    normalMembers (insertMember (Literal.unescape key) (normal value) done) rest

end

mutual

/-- A value for people: texts without quotes, lists in brackets, tables as `map[key:value]`. -/
def display : Json → Text
  | .null => "<nil>"
  | .bool b => boolText b
  | .number literal => displayNumber.render (floatOf literal)
  | .string body => Literal.unescape body
  | .array _ items => "[" ++ Text.join " " (displayItems items) ++ "]"
  | .object _ members =>
    "map[" ++ Text.join " " ((displayMembers [] members).map fun (k, t) => k ++ ":" ++ t) ++ "]"

/-- The texts of the elements of an array. -/
def displayItems : JsonItems → List Text
  | .nil => []
  | .cons _ value _ rest => display value :: displayItems rest

/-- The texts of the members of an object by key, added to those in `done`. -/
def displayMembers (done : List (Text × Text)) : JsonMembers → List (Text × Text)
  | .nil => done
  | .cons _ key _ _ value _ rest =>
    displayMembers (insertMember (Literal.unescape key) (display value) done) rest

end

end Json

end MetricHistory
