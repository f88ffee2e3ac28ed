import MetricHistory.Json.Decode

/-!
# The shape of analyzer output

The analyzer prints one JSON object.  `Schema.violations` lists where an object departs from the
shape the analyzer has to keep to, as JSON pointers in ascending order; a missing member is
reported at the object that lacks it.

Keys are taken literally here, and of repeated members the last one counts.

Numbers are computed exactly for this, up to a limit (`Schema.isComputable`).  The check does not
survive a bound on a number beyond the limit (`Schema.breaksDown`).
-/

namespace MetricHistory

namespace Schema

/-- The kinds of values a rule can ask for. -/
inductive Kind where
  | object
  | array
  | number
  | integer
deriving DecidableEq, Repr

/-- The largest power of ten that is computed for a number. -/
def exponentLimit : Nat := 1000000

/-- The exact number of a literal can be computed.  The exponent has to have 64 bits, and a number
that is not zero must not have too large a power of ten. -/
def isComputable (literal : Text) : Bool :=
  match Literal.numberParts? literal, Literal.decimal? literal with
  | some (p, _), some (_, coefficient, exponent) =>
    let shift := exponent + p.fraction.length
    minInt64 ≤ shift && shift ≤ maxInt64 &&
      (coefficient == 0 || exponent.natAbs ≤ exponentLimit)
  | _, _ => false

/-- The number of a literal is whole. -/
def isWhole (literal : Text) : Bool :=
  match Literal.decimal? literal with
  | some (_, coefficient, exponent) => Literal.isWhole coefficient exponent
  | none => false

/-- The value is of the given kind.  An integer may be spelled with a fraction or an exponent,
as in `1.0` and `1e3`. -/
def Kind.admits : Kind → Json → Bool
  | .object, .object .. => true
  | .array, .array .. => true
  | .number, .number _ => true
  | .integer, .number literal => isComputable literal && isWhole literal
  | _, _ => false

/-- The number is below zero. -/
def isNegative : Json → Bool
  | .number literal =>
    match Literal.decimal? literal with
    | some (negative, coefficient, _) => negative && coefficient != 0
    | none => false
  | _ => false

/-- What a member has to look like when it is present. -/
structure Rule where
  name : String
  kinds : List Kind
  minimumZero : Bool := false

/-- The value is of one of the kinds that the rule asks for. -/
def Rule.admits (r : Rule) (j : Json) : Bool := r.kinds.any (·.admits j)

/-- A rule is kept by a value. -/
def Rule.keeps (r : Rule) (j : Json) : Bool := r.admits j && !(r.minimumZero && isNegative j)

/-- The bound of a rule is to be compared with a number that cannot be computed. -/
def Rule.breaksDown (r : Rule) : Json → Bool
  | .number literal => r.minimumZero && r.admits (.number literal) && !isComputable literal
  | _ => false

/-- The members of the analyzer's production object. -/
def productionRules : List Rule :=
  [⟨"loc", [.integer], true⟩, ⟨"ccnSum", [.number], false⟩, ⟨"miDebtSum", [.number], false⟩,
   ⟨"antipatterns", [.number], false⟩]

/-- The other members of the analyzer's output. -/
def outputRules : List Rule :=
  [⟨"testLoc", [.number], true⟩, ⟨"surfaceArea", [.object, .array], false⟩,
   ⟨"surfaceAreaLists", [.object, .array], false⟩, ⟨"antipatterns", [.object, .array], false⟩,
   ⟨"hotspots", [.array], false⟩, ⟨"ccnSum", [.number], false⟩, ⟨"miDebtSum", [.number], false⟩]

/-- The places below `at` where a rule is broken. -/
def broken (at_ : Text) (rules : List Rule) (members : List (Text × Json)) : List Text :=
  rules.filterMap fun r =>
    match Json.lookup r.name members with
    | none => none
    | some j => if r.keeps j then none else some (at_ ++ "/" ++ Text.ofString r.name)

/-- The check of some members breaks down. -/
def anyBreaksDown (rules : List Rule) (members : List (Text × Json)) : Bool :=
  rules.any fun r => (Json.lookup r.name members).any r.breaksDown

/-- The check of a value breaks down. -/
def breaksDown : Json → Bool
  | .object _ members =>
    let ms := Json.memberList members
    let production := ((Json.lookup "production" ms).bind Json.members?).getD []
    anyBreaksDown productionRules production || anyBreaksDown outputRules ms
  | _ => false

/-- The violations inside the production object. -/
def productionViolations : Json → List Text
  | .object _ members =>
    let ms := Json.memberList members
    let missing : List Text :=
      if (Json.lookup "loc" ms).isNone then [Text.ofString "/production"] else []
    missing ++ broken "/production" productionRules ms
  | _ => [Text.ofString "/production"]

/-- The places where a value departs from the shape of analyzer output. -/
def violations : Json → List Text
  | .object _ members =>
    let ms := Json.memberList members
    let production :=
      match Json.lookup "production" ms with
      | none => [[]]
      | some p => productionViolations p
    Text.sort (production ++ broken [] outputRules ms)
  | _ => [[]]

end Schema

end MetricHistory
