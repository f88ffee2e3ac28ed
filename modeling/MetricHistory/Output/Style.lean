import MetricHistory.Text.Case
import MetricHistory.Text.Quoted

/-!
# Formats and colours of output

The formats a result is written in, the colours of a terminal, and the confirmation and warning
lines of commands.
-/

namespace MetricHistory

namespace Output

/-- The formats of output. -/
inductive Format where
  | text
  | json
  | markdown
deriving DecidableEq, Repr

namespace Format

/-- The format a word names, `text` for an unknown word. -/
def ofText (t : Text) : Format :=
  let word := Text.lower t
  if word == Text.ofString "json" then json
  else if word == Text.ofString "markdown" || word == Text.ofString "md" then markdown
  else text

/-- The name of a format. -/
def name : Format → Text
  | text => "text"
  | json => "json"
  | markdown => "markdown"

end Format

/-- A style of terminal text, by the codes that turn it on and off. -/
structure Style where
  on : String
  off : String

namespace Style

/-- Bold text. -/
def bold : Style := ⟨"1", "22"⟩
/-- Bold cyan text. -/
def boldCyan : Style := ⟨"1;36", "22;0"⟩
/-- Green text. -/
def green : Style := ⟨"32", "0"⟩
/-- Yellow text. -/
def yellow : Style := ⟨"33", "0"⟩
/-- Red text. -/
def red : Style := ⟨"31", "0"⟩
/-- Bold red text. -/
def boldRed : Style := ⟨"31;1", "0;22"⟩
/-- Cyan text. -/
def cyan : Style := ⟨"36", "0"⟩
/-- Grey text. -/
def grey : Style := ⟨"90", "0"⟩

/-- The text in a style, when colours are on. -/
def paint (s : Style) (colored : Bool) (t : Text) : Text :=
  if colored then "\x1b[" ++ Text.ofString s.on ++ "m" ++ t ++ "\x1b[" ++ Text.ofString s.off ++ "m"
  else t

end Style

/-- Fills a template: `%s` takes an argument as it is, `%q` takes one between quotes, and `%%`
is a percent sign. -/
def fill : Text → List Text → Text
  | [], _ => []
  | 37 :: 37 :: t, args => 37 :: fill t args
  | 37 :: 115 :: t, a :: args => a ++ fill t args
  | 37 :: 113 :: t, a :: args => a.quoted ++ fill t args
  | b :: t, args => b :: fill t args

/-- A line that confirms what was done. -/
def success (colored : Bool) (line : Text) : Text := Style.green.paint colored (line ++ "\n")

/-- A warning.  In colour it needs no word before it. -/
def warning (colored : Bool) (line : Text) : Text :=
  if colored then Style.yellow.paint true (line ++ "\n") else "WARNING: " ++ line ++ "\n"

end Output

end MetricHistory
