import MetricHistory.Calendar.Time
import MetricHistory.Settings.Basic

/-!
# The tree a YAML text spells

A node is a scalar, a list or a table whose keys are nodes too.  A plain scalar is resolved by
its spelling into a number, a truth value, a moment, nothing at all, or else a text; a quoted
scalar is always a text.

* `Yaml.Node` is the tree.
* `Yaml.resolve` gives the setting of a plain scalar.
* `Yaml.Node.entries?` gives the entries of a document; a key that appears twice is refused.
-/

namespace MetricHistory

namespace Yaml

/-- A node of a YAML text. -/
inductive Node where
  | scalar (plain : Bool) (t : Text)
  | list (items : List Node)
  | table (entries : List (Node × Node))

instance : Inhabited Node := ⟨.scalar true []⟩

/-- A value that is left out. -/
def Node.empty : Node := .scalar true []

/-! ### Plain scalars -/

/-- One of the words. -/
def isOneOf (words : List String) (t : Text) : Bool := words.any fun w => t == Text.ofString w

/-- One or two digits at the front. -/
def oneOrTwo? (t : Text) : Option (Nat × Text) := Time.shortDigits? t

/-- A date whose month and day may have one digit. -/
def shortDate? (t : Text) : Option (Date × Text) := do
  let (y, t) ← Date.digits? 4 t
  let t ← Date.skip? "-" t
  let (m, t) ← oneOrTwo? t
  let t ← Date.skip? "-" t
  let (d, t) ← oneOrTwo? t
  let date : Date := ⟨y, m, d⟩
  if date.isValid then some (date, t) else none

/-- A time of day whose parts may have one digit. -/
def shortClock? (t : Text) : Option Text := do
  let (h, t) ← oneOrTwo? t
  let t ← Date.skip? ":" t
  let (m, t) ← oneOrTwo? t
  let t ← Date.skip? ":" t
  let (s, t) ← oneOrTwo? t
  if h < 24 ∧ m < 60 ∧ s < 60 then some (Time.fraction t).2 else none

/-- The scalar names a day, or a time of day on it: with an offset behind `T`, without behind a
space. -/
def isMoment (t : Text) : Bool :=
  match shortDate? t with
  | none => false
  | some (_, rest) =>
    match rest with
    | [] => true
    | b :: rest =>
      match shortClock? rest with
      | none => false
      | some zone =>
        if b = Text.byte 'T' ∨ b = Text.byte 't' then (Time.zone? zone).isSome
        else b = Text.byte ' ' && zone.isEmpty

/-- The spelling is a decimal number with an optional exponent. -/
def isDecimal (t : Text) : Bool :=
  let (_, t) := Settings.signed t
  t.head?.any fun b => Text.isDigit b || (b == Text.byte '.' && (t.drop 1).head?.any Text.isDigit)

/-- A number that starts with a sign or a digit, underscores apart. -/
def number? (t : Text) : Option Setting :=
  let plain := t.filter (· != Settings.underscore)
  let integer := (Settings.integer? plain).bind fun i =>
    if minInt64 ≤ i ∧ i ≤ maxInt64 then some (Setting.int i)
    else if 0 ≤ i ∧ i < Nat.pow 2 64 ∧ plain.head?.any Text.isDigit then some (Setting.int i)
    else none
  match integer with
  | some s => some s
  | none => if isDecimal plain then (Settings.decimal? plain).map .float else none

/-- The infinite float with a sign. -/
def infinity (negative : Bool) : Float :=
  Float.ofBits (if negative then 0xFFF0000000000000 else 0x7FF0000000000000)

/-- The float that is not a number. -/
def notANumber : Float := Float.ofBits 0x7FF8000000000001

/-- The setting of a plain scalar. -/
def resolve (t : Text) : Setting :=
  match t with
  | [] => .null
  | b :: _ =>
    if isOneOf ["true", "True", "TRUE"] t then .bool true
    else if isOneOf ["false", "False", "FALSE"] t then .bool false
    else if isOneOf ["~", "null", "Null", "NULL"] t then .null
    else if isOneOf [".nan", ".NaN", ".NAN"] t then .float notANumber
    else if isOneOf [".inf", ".Inf", ".INF", "+.inf", "+.Inf", "+.INF"] t then
      .float (infinity false)
    else if isOneOf ["-.inf", "-.Inf", "-.INF"] t then .float (infinity true)
    else if b = Text.byte '.' then ((Settings.decimal? t).map Setting.float).getD (.text t)
    else if Text.isDigit b || b == Text.byte '+' || b == Text.byte '-' then
      if isMoment t then .moment true else (number? t).getD (.text t)
    else .text t

/-! ### Settings -/

/-- The text of a key that is a plain scalar inside the document. -/
def keyText (t : Text) : Text :=
  match resolve t with
  | .null => "<nil>"
  | .bool b => if b then "true" else "false"
  | .int i => Text.ofInt i
  | .float x => displayNumber.render x
  | _ => t

/-- No two texts are equal. -/
def distinct : List Text → Bool
  | [] => true
  | t :: ts => !ts.contains t && distinct ts

mutual

/-- The setting of a node; `none` when a table has a key twice or a key that is no scalar. -/
def Node.setting? : Node → Option Setting
  | .scalar plain t => some (if plain then resolve t else .text t)
  | .list items => (settingList? items).map .list
  | .table entries => (settings? entries).bind fun es =>
      if distinct (keysOf entries) then some (.table es) else none

/-- The settings of the elements of a list. -/
def settingList? : List Node → Option (List Setting)
  | [] => some []
  | n :: ns => do
    let s ← n.setting?
    let ss ← settingList? ns
    some (s :: ss)

/-- The settings of the entries of a table. -/
def settings? : List (Node × Node) → Option (List (Text × Setting))
  | [] => some []
  | (.scalar plain key, value) :: rest => do
    let s ← value.setting?
    let ss ← settings? rest
    some ((if plain then keyText key else key, s) :: ss)
  | _ => none

/-- The spelling of the keys of a table. -/
def keysOf : List (Node × Node) → List Text
  | [] => []
  | (.scalar _ key, _) :: rest => key :: keysOf rest
  | _ :: rest => keysOf rest

end

/-- The entries at the top of a document.  Its keys count as they are spelled, and an entry
whose key means nothing is left out. -/
def Node.entries? : Node → Option (List (Text × Setting))
  | .scalar plain t =>
    match plain, resolve t with
    | true, .null => some []
    | _, _ => none
  | .list _ => none
  | .table entries => do
    if !distinct (keysOf entries) then none
    else
      let es ← settings? entries
      let spelled := keysOf entries
      let plainNull : Node × Node → Bool
        | (.scalar true key, _) => match resolve key with
          | .null => true
          | _ => false
        | _ => false
      some (((spelled.zip es).zip entries).filterMap fun ((key, (_, s)), e) =>
        if plainNull e then none else some (key, s))

end Yaml

end MetricHistory
