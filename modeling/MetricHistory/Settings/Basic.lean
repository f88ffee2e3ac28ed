import MetricHistory.Decimal.Layout
import MetricHistory.Settings.Number
import MetricHistory.Text.Case

/-!
# Settings trees

What a settings file says, whatever its format, and how a field takes its value from it.  A
field is lenient: a number field takes a truth value or a text that spells a number, a text
field takes numbers and truth values, and so on.  An empty value leaves the field as it is.

* `Setting` is the tree.
* `Setting.readInt`, `Setting.readBool`, `Setting.readText` and `Setting.readTexts` give the
  value of a field that held `start` before.
* `Setting.entry?` finds the value of a key, preferring its exact spelling.
-/

namespace MetricHistory

/-- A value of a settings file. -/
inductive Setting where
  | null
  | bool (b : Bool)
  | int (i : Int)
  | float (x : Float)
  | text (t : Text)
  /-- A date or a time of day; `zoned` when it names an instant. -/
  | moment (zoned : Bool)
  | list (items : List Setting)
  | table (entries : List (Text × Setting))

instance : Inhabited Setting := ⟨.null⟩

namespace Setting

/-- The value of a key: the exact spelling first, then one that differs in letter case only. -/
def entry? (name : Text) (entries : List (Text × Setting)) : Option Setting :=
  match entries.find? fun (key, _) => key == name with
  | some (_, s) => some s
  | none => (entries.find? fun (key, _) => key.equalFold name).map (·.2)

/-- The value of an integer field.  Fractions are cut off, and a number of more than 64 bits
keeps its low ones. -/
def readInt (start : Int) : Setting → Option Int
  | null => some start
  | bool b => some (if b then 1 else 0)
  | int i => some (wrap64 i)
  | float x => some (Binary64.truncate x)
  | text t =>
    if t.isEmpty then some 0
    else (Settings.integer? t).bind fun i => if Settings.fits64 i then some i else none
  | moment _ | list _ | table _ => none

/-- The spellings of a truth value in a text. -/
def truthWord? (t : Text) : Option Bool :=
  if ["1", "t", "T", "TRUE", "true", "True"].any fun w => t == Text.ofString w then some true
  else if ["0", "f", "F", "FALSE", "false", "False", ""].any fun w => t == Text.ofString w then
    some false
  else none

/-- The value of a truth field.  Every number but zero is true. -/
def readBool (start : Bool) : Setting → Option Bool
  | null => some start
  | bool b => some b
  | int i => some (i != 0)
  | float x => some (x != 0)
  | text t => truthWord? t
  | moment _ | list _ | table _ => none

/-- The value of a text field. -/
def readText (start : Text) : Setting → Option Text
  | null => some start
  | bool b => some (if b then "1" else "0")
  | int i => some (Text.ofInt i)
  | float x => some (plainNumber x)
  | text t => some t
  | moment _ | list _ | table _ => none

/-- The value of a field that lists texts.  A single value counts as a list of one, and an
empty table as an empty list. -/
def readTexts (start : List Text) : Setting → Option (List Text)
  | null => some start
  | list items => items.mapM (readText [])
  | table [] => some []
  | s => (readText [] s).map ([·])

/-- The entries of a section; `none` when the value cannot be a section.  A moment counts as a
section without entries. -/
def sectionEntries? : Setting → Option (List (Text × Setting))
  | null => some []
  | table entries => some entries
  | moment _ => some []
  | _ => none

/-- Reads the field `name` of a section. -/
def readField {α : Type} (read : α → Setting → Option α) (name : Text) (start : α)
    (entries : List (Text × Setting)) : Option α :=
  match entry? name entries with
  | none => some start
  | some s => read start s

end Setting

end MetricHistory
