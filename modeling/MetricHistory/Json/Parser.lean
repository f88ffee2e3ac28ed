import MetricHistory.Json.Basic

/-!
# Reading JSON texts

`Json.parse?` reads a text that consists of one JSON value with blank space around it.  Arrays
and objects may be nested `Json.depthLimit` deep.
-/

namespace MetricHistory

namespace Json

/-- The deepest nesting of arrays and objects that is read. -/
def depthLimit : Nat := 10000

/-- Splits the blank space at the front from the rest. -/
def blankRun (t : Text) : Text × Text :=
  (t.takeWhile Literal.isBlank, t.dropWhile Literal.isBlank)

/-- What follows a byte that has to come next. -/
def expect? (c : Char) (t : Text) : Option Text :=
  match t with
  | [] => none
  | b :: r => if b = Text.byte c then some r else none

/-- The elements up to the closing bracket, the first of which has to come next.  `fuel` bounds
their number. -/
def parseItems (value : Text → Option (Json × Text)) : Nat → Text → Option (JsonItems × Text)
  | 0, _ => none
  | fuel + 1, t => do
    let (before, t) := blankRun t
    let (j, t) ← value t
    let (after, t) := blankRun t
    match expect? ',' t with
    | some t => do
      let (rest, t) ← parseItems value fuel t
      some (.cons before j after rest, t)
    | none => do
      let t ← expect? ']' t
      some (.cons before j after .nil, t)

/-- The members up to the closing brace, the first of which has to come next.  `fuel` bounds
their number. -/
def parseMembers (value : Text → Option (Json × Text)) :
    Nat → Text → Option (JsonMembers × Text)
  | 0, _ => none
  | fuel + 1, t => do
    let (before, t) := blankRun t
    let t ← expect? '"' t
    let (key, t) ← Literal.body? t
    let (middle₁, t) := blankRun t
    let t ← expect? ':' t
    let (middle₂, t) := blankRun t
    let (j, t) ← value t
    let (after, t) := blankRun t
    match expect? ',' t with
    | some t => do
      let (rest, t) ← parseMembers value fuel t
      some (.cons before key middle₁ middle₂ j after rest, t)
    | none => do
      let t ← expect? '\x7d' t
      some (.cons before key middle₁ middle₂ j after .nil, t)

/-- The value at the front of a text, and the rest.  At most `depth` arrays and objects may be
open at the same time. -/
def parseValue : Nat → Text → Option (Json × Text)
  | 0, t => scalar t
  | depth + 1, t =>
    match t with
    | [] => none
    | b :: r =>
      if b = Text.byte '[' then
        let (blank, u) := blankRun r
        match expect? ']' u with
        | some u => some (.array blank .nil, u)
        | none => (parseItems (parseValue depth) r.length r).map fun (items, u) =>
            (.array [] items, u)
      else if b = Text.byte '\x7b' then
        let (blank, u) := blankRun r
        match expect? '\x7d' u with
        | some u => some (.object blank .nil, u)
        | none => (parseMembers (parseValue depth) r.length r).map fun (members, u) =>
            (.object [] members, u)
      else scalar t
where
  /-- A value that is neither an array nor an object. -/
  scalar (t : Text) : Option (Json × Text) :=
    match t with
    | [] => none
    | b :: r =>
      if b = Text.byte '"' then (Literal.body? r).map fun (body, u) => (.string body, u)
      else if b = Text.byte 't' then (Text.after? "true" t).map (.bool true, ·)
      else if b = Text.byte 'f' then (Text.after? "false" t).map (.bool false, ·)
      else if b = Text.byte 'n' then (Text.after? "null" t).map (.null, ·)
      else (Literal.number? t).map fun (literal, u) => (.number literal, u)

/-- Reads a text that is one JSON value with blank space around it. -/
def parse? (t : Text) : Option Json := do
  let (j, rest) ← parseValue depthLimit (blankRun t).2
  if (blankRun rest).2.isEmpty then some j else none

end Json

end MetricHistory
