import MetricHistory.Failure
import MetricHistory.Settings.Number
import MetricHistory.Text.Blank
import MetricHistory.Text.Quoted

/-!
# Flags of the command line

Flags stand in front of the other arguments, with one dash or two, and take their value after an
equals sign or as the next argument.

* `Flag` is a flag that a command knows.
* `FlagValues.parse` reads the flags in front of the arguments.
-/

namespace MetricHistory

namespace Command

/-- The kinds of values that flags take. -/
inductive FlagKind where
  | text
  | number
  | switch
  /-- Several texts, given one by one or with commas between them. -/
  | texts
deriving DecidableEq, Repr

/-- A flag that a command knows. -/
structure Flag where
  name : Text
  /-- Another spelling. -/
  alias? : Option Text := none
  kind : FlagKind
  /-- The value when the flag is not given. -/
  start : List Text := []

/-- The flag has a spelling. -/
def Flag.isSpelled (f : Flag) (word : Text) : Bool := f.name == word || f.alias? == some word

/-- The flags of a command with those that were given, in order: the spelling and the value. -/
structure FlagValues where
  flags : List Flag := []
  given : List (Text × Text) := []

namespace FlagValues

/-- The flag with a spelling. -/
def flag? (v : FlagValues) (word : Text) : Option Flag := v.flags.find? fun f => f.isSpelled word

/-- The values of a flag: those that are given, else its start. -/
def values (v : FlagValues) (name : Text) : List Text :=
  match v.flag? name with
  | none => []
  | some f =>
    let own := (v.given.filter fun (word, _) => f.isSpelled word).map (·.2)
    if own.isEmpty then f.start
    else
      match f.kind with
      | .texts => own.flatMap fun t => (t.splitOn (Text.byte ',')).map Text.trim
      | _ => own

/-- The value that counts: the last one. -/
def text (v : FlagValues) (name : Text) : Text := ((v.values name).getLast?).getD []

/-- The truth value of a word, if it has one. -/
def truth? (t : Text) : Option Bool :=
  if ["1", "t", "T", "true", "TRUE", "True"].any fun w => t == Text.ofString w then some true
  else if ["0", "f", "F", "false", "FALSE", "False"].any fun w => t == Text.ofString w then
    some false
  else none

/-- The value of a number flag. -/
def number (v : FlagValues) (name : Text) : Int := (Settings.integer? (v.text name)).getD 0

/-- The value of a switch. -/
def isOn (v : FlagValues) (name : Text) : Bool := (truth? (v.text name)).getD false

/-- The kind of flag can have a value. -/
def admits (k : FlagKind) (value : Text) : Bool :=
  match k with
  | .number =>
    match Settings.integer? value with
    | some i => Settings.fits64 i
    | none => false
  | .switch => (truth? value).isSome
  | _ => true

/-- What is said of a value that a flag cannot have. -/
def badValue (word value : Text) : Failure :=
  .other ("invalid value " ++ value.quoted ++ " for flag -" ++ word ++ ": parse error")

/-- Adds a flag that is given. -/
def add (v : FlagValues) (f : Flag) (word value : Text) : Except Failure FlagValues :=
  if admits f.kind value then .ok { v with given := v.given ++ [(word, value)] }
  else .error (badValue word value)

/-- The spelling in an argument that is a flag, with a value after an equals sign. -/
def split? (argument : Text) : Option (Text × Option Text) :=
  match argument with
  | 45 :: b :: rest =>
    let body := if b = 45 then rest else b :: rest
    match Text.cut? (Text.byte '=') body with
    | some (word, value) => some (word, some value)
    | none => some (body, none)
  | _ => none

/-- The argument is a flag whose spelling makes no sense. -/
def isMisspelled (word : Text) : Bool := word.isEmpty || word.head? == some 45

/-- Reads the flags in front of the arguments; the rest of the arguments is left. -/
def parseFrom (v : FlagValues) : List Text → Except Failure (FlagValues × List Text)
  | [] => .ok (v, [])
  | argument :: rest =>
    if argument == Text.ofString "--" then .ok (v, rest)
    else
      match split? argument with
      | none => .ok (v, argument :: rest)
      | some (word, value?) =>
        if isMisspelled word then .error (.other ("bad flag syntax: " ++ argument))
        else
          match v.flag? word with
          | none => .error (.other ("flag provided but not defined: -" ++ word))
          | some f =>
            match value?, f.kind with
            | some value, _ => (v.add f word value).bind fun v => parseFrom v rest
            | none, .switch => (v.add f word "true").bind fun v => parseFrom v rest
            | none, _ =>
              match rest with
              | [] => .error (.other ("flag needs an argument: -" ++ word))
              | value :: rest => (v.add f word value).bind fun v => parseFrom v rest

/-- The flag whose two spellings are both given. -/
def twofold? (v : FlagValues) : Option Flag :=
  v.flags.find? fun f =>
    v.given.any (fun (word, _) => word == f.name) &&
      v.given.any fun (word, _) => f.alias? == some word

/-- Reads the flags of a command in front of the arguments. -/
def parse (flags : List Flag) (arguments : List Text) :
    Except Failure (FlagValues × List Text) := do
  let (v, rest) ← parseFrom { flags } arguments
  match v.twofold? with
  | some f =>
    .error (.other ("Cannot use two forms of the same flag: " ++ f.alias?.getD [] ++ " " ++ f.name))
  | none => return (v, rest)

end FlagValues

/-- The flags of a command and of those it belongs to, the innermost first. -/
abbrev FlagScope := List FlagValues

namespace FlagScope

/-- The values of the innermost command that knows a flag. -/
def owner (s : FlagScope) (name : Text) : FlagValues :=
  (s.find? fun v => (v.flag? name).isSome).getD {}

/-- The text of a flag. -/
def text (s : FlagScope) (name : Text) : Text := (s.owner name).text name

/-- The texts of a flag. -/
def texts (s : FlagScope) (name : Text) : List Text := (s.owner name).values name

/-- The number of a flag. -/
def number (s : FlagScope) (name : Text) : Int := (s.owner name).number name

/-- The switch of a flag is on. -/
def isOn (s : FlagScope) (name : Text) : Bool := (s.owner name).isOn name

end FlagScope

end Command

end MetricHistory
