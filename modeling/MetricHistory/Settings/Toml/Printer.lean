import MetricHistory.Settings.Basic

/-!
# Writing TOML

Tables are written after a blank line under their full name, each level two spaces further in.
-/

namespace MetricHistory

namespace Toml

/-- A character inside a quoted text. -/
def escapedChar (c : Char) : Text :=
  if c = '\x08' then "\\b"
  else if c = '\t' then "\\t"
  else if c = '\n' then "\\n"
  else if c = '\x0c' then "\\f"
  else if c = '\x0d' then "\\r"
  else if c = '"' then "\\\""
  else if c = '\\' then "\\\\"
  else if c.toNat % 0x10000 < 0x1F then
    let digits := (Nat.toDigits 16 (c.toNat % 0x10000)).map fun d => Text.byte d.toUpper
    "\\u" ++ List.replicate (4 - digits.length) (Text.byte '0') ++ digits
  else Utf8.encode c

/-- A text in quotes. -/
def quotedText (t : Text) : Text := "\"" ++ (Utf8.chars t).flatMap escapedChar ++ "\""

/-- The character needs no quotes in a key. -/
def isBareChar (c : Char) : Bool := c.isAlphanum || c = '-' || c = '_'

/-- A key, in quotes if it needs them. -/
def writtenKey (key : Text) : Text :=
  if (Utf8.chars key).all isBareChar then key else "\"" ++ key ++ "\""

mutual

/-- A value on one line; `none` for a table. -/
def valueText? : Setting → Option Text
  | .null | .moment _ | .table _ => none
  | .bool b => some (Text.ofString (if b then "true" else "false"))
  | .int i => some (Text.ofInt i)
  | .float x => some (plainNumber x)
  | .text t => some (quotedText t)
  | .list items => some ("[" ++ Text.join ", " (valueTexts items) ++ "]")

/-- The values of a list. -/
def valueTexts : List Setting → List Text
  | [] => []
  | s :: rest => (valueText? s).toList ++ valueTexts rest

end

/-- The lines of the entries that are no tables. -/
def plainLines (margin : Text) (entries : List (Text × Setting)) : Text :=
  entries.flatMap fun (key, s) =>
    match valueText? s with
    | some v => margin ++ writtenKey key ++ " = " ++ v ++ "\n"
    | none => []

mutual

/-- A table with its name and the tables inside it. -/
def tableText (name : List Text) (s : Setting) : Text :=
  match s with
  | .table entries =>
    let margin := Text.replicate (name.length - 1) "  "
    "\n" ++ margin ++ "[" ++ Text.join "." (name.map writtenKey) ++ "]\n" ++
      plainLines (margin ++ "  ") entries ++ tablesText name entries
  | _ => []

/-- The tables among the entries of a table. -/
def tablesText (name : List Text) : List (Text × Setting) → Text
  | [] => []
  | (key, s) :: rest => tableText (name ++ [key]) s ++ tablesText name rest

end

/-- The text of a settings file. -/
def render (entries : List (Text × Setting)) : Text :=
  plainLines [] entries ++ tablesText [] entries

end Toml

end MetricHistory
