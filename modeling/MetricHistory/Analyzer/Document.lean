import MetricHistory.Analyzer.Fragment
import MetricHistory.Analyzer.Schema

/-!
# Analyzer documents

`Document.parse` checks the output of an analyzer against the schema and decodes it.  The
numbers the pipeline computes with are typed; the other fields are kept byte for byte.

* Sums that the production object lacks are taken from the top level, where older analyzers
  put them.
* Absent optional fields are empty.
-/

namespace MetricHistory

/-- The aggregates of production code. -/
structure Production where
  loc : Int
  ccnSum : Float
  miDebtSum : Float
  /-- The rate per 1000 lines. -/
  antipatterns : Float
  /-- The whole object as the analyzer spelled it. -/
  raw : Text

/-- One validated analyzer result. -/
structure Document where
  production : Production
  testLoc : Float
  surfaceArea : Text
  surfaceAreaLists : Text
  antipatterns : Text
  hotspots : Text

/-- Why analyzer output was refused. -/
inductive DocumentError where
  /-- The output is not one JSON value. -/
  | notJson
  /-- The schema cannot be checked.  This is no refusal: whoever parses the output goes down. -/
  | breakdown
  /-- The value departs from the schema at the given places. -/
  | violates (places : List Text)
  /-- A member outside the production object cannot be decoded. -/
  | undecodable
  /-- A member of the production object cannot be decoded. -/
  | undecodableProduction
deriving DecidableEq, Repr

namespace DocumentError

/-- The wording of the refusal. -/
def message : DocumentError → Text
  | breakdown => "schema check broke down"
  | undecodableProduction => "malformed analyzer output: production"
  | _ => "malformed analyzer output"

/-- The places where the schema is violated. -/
def places : DocumentError → List Text
  | violates ps => ps
  | _ => []

end DocumentError

namespace Document

/-- The value of a passthrough field, or its default when it is absent or null. -/
def orDefault (raw empty : Text) : Text :=
  if raw.isEmpty || raw == Text.ofString "null" then empty else raw

/-- A sum that may stay empty. -/
def optionalSum (name : Text) (members : List (Text × Json)) : Option (Option Float) :=
  Json.field name (fun _ => Json.decodeFloat?) none members

/-- The members of the production object that are decoded. -/
structure ProductionFields where
  loc : Float
  ccnSum : Option Float
  miDebtSum : Option Float
  antipatterns : Float

/-- Decodes the production object. -/
def productionFields? (members : List (Text × Json)) : Option ProductionFields := do
  let loc ← Json.field "loc" Json.decodeFloat 0 members
  let ccnSum ← optionalSum "ccnSum" members
  let miDebtSum ← optionalSum "miDebtSum" members
  let antipatterns ← Json.field "antipatterns" Json.decodeFloat 0 members
  some ⟨loc, ccnSum, miDebtSum, antipatterns⟩

/-- The members at the top level that are decoded. -/
structure OutputFields where
  production : Json
  testLoc : Float
  ccnSum : Option Float
  miDebtSum : Option Float

/-- Decodes the members at the top level. -/
def outputFields? (members : List (Text × Json)) : Option OutputFields := do
  let production := (Json.matching "production" members).getLast?.getD .null
  let testLoc ← Json.field "testLoc" Json.decodeFloat 0 members
  let ccnSum ← optionalSum "ccnSum" members
  let miDebtSum ← optionalSum "miDebtSum" members
  some ⟨production, testLoc, ccnSum, miDebtSum⟩

/-- The first sum that is present. -/
def firstSum (a b : Option Float) : Float := (a.or b).getD 0

/-- Builds the document of an object that keeps to the schema. -/
def ofMembers (members : List (Text × Json)) : Except DocumentError Document := do
  let some output := outputFields? members | throw .undecodable
  let some p := Json.decodeRecord (fun _ ms => (productionFields? ms).map some) none
      output.production | throw .undecodableProduction
  let p := p.getD ⟨0, none, none, 0⟩
  return {
    production := {
      loc := Binary64.truncate p.loc
      ccnSum := firstSum p.ccnSum output.ccnSum
      miDebtSum := firstSum p.miDebtSum output.miDebtSum
      antipatterns := p.antipatterns
      raw := output.production.source }
    testLoc := output.testLoc
    surfaceArea := orDefault (Json.rawField "surfaceArea" [] members) "\x7b\x7d"
    surfaceAreaLists := orDefault (Json.rawField "surfaceAreaLists" [] members) "\x7b\x7d"
    antipatterns := orDefault (Json.rawField "antipatterns" [] members) "\x7b\x7d"
    hotspots := orDefault (Json.rawField "hotspots" [] members) "[]" }

/-- Validates and decodes the output of an analyzer. -/
def parse (data : Text) : Except DocumentError Document := do
  let some j := Json.parse? data | throw .notJson
  if Schema.breaksDown j then throw .breakdown
  let violations := Schema.violations j
  if !violations.isEmpty then throw (.violates violations)
  ofMembers (j.members?.getD [])

/-- The values of the document that deltas compare. -/
def fragment (d : Document) : Fragment where
  loc := d.production.loc
  ccnSum := d.production.ccnSum
  miDebtSum := d.production.miDebtSum
  antipatterns := Fragment.antipatternCount d.production.antipatterns d.production.loc

end Document

end MetricHistory
