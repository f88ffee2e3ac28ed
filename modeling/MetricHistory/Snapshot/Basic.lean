import MetricHistory.Analyzer.Document
import MetricHistory.Commit.Basic
import MetricHistory.Json.Decode
import MetricHistory.Json.Normal

/-!
# Snapshots

A snapshot is the full measurement of one commit.  The findings of the analyzer are passed on
as the JSON texts they came in.

* `Snapshot.ofDocument` makes the snapshot of a measured commit.
* `Snapshot.json?` and `Snapshot.decode` write and read a snapshot.
-/

namespace MetricHistory

/-- The measurement of one commit.  An empty text stands for a finding that is not there. -/
structure Snapshot where
  date : Text := []
  commit : Text := []
  production : Text := []
  testLoc : Float := 0
  surfaceArea : Text := []
  surfaceAreaLists : Text := []
  antipatterns : Text := []
  hotspots : Text := []

namespace Snapshot

/-- The number of hash bytes kept in a snapshot. -/
def hashLength : Nat := 8

/-- The snapshot of a commit measured under a label. -/
def ofDocument (label hash : Text) (d : Document) : Snapshot :=
  { date := label
    commit := shortHash hashLength hash
    production := d.production.raw
    testLoc := d.testLoc
    surfaceArea := d.surfaceArea
    surfaceAreaLists := d.surfaceAreaLists
    antipatterns := d.antipatterns
    hotspots := d.hotspots }

/-- The value of a finding, `null` when it is not there; `none` when it is no JSON text. -/
def finding? (markupSafe : Bool) (raw : Text) : Option Json :=
  if raw.isEmpty then some .null
  else (Json.parse? raw).map fun j => if markupSafe then j.markupSafe else j

/-- A number of a document. -/
def number (x : Float) : Json := .number (jsonNumber.render x)

/-- The snapshot as a JSON value, made safe for markup or not. -/
def json? (markupSafe : Bool) (s : Snapshot) : Option Json := do
  let production ← finding? markupSafe s.production
  let surfaceArea ← finding? markupSafe s.surfaceArea
  let surfaceAreaLists ← finding? markupSafe s.surfaceAreaLists
  let antipatterns ← finding? markupSafe s.antipatterns
  let hotspots ← finding? markupSafe s.hotspots
  some (Json.record
    [("date", Json.ofText markupSafe s.date), ("commit", Json.ofText markupSafe s.commit),
     ("production", production), ("testLoc", number s.testLoc), ("surfaceArea", surfaceArea),
     ("surfaceAreaLists", surfaceAreaLists), ("antipatterns", antipatterns),
     ("hotspots", hotspots)])

/-- Reads the members of an object into a snapshot. -/
def ofMembers (start : Snapshot) (ms : List (Text × Json)) : Option Snapshot := do
  let date ← Json.field "date" Json.decodeText start.date ms
  let commit ← Json.field "commit" Json.decodeText start.commit ms
  let testLoc ← Json.field "testLoc" Json.decodeFloat start.testLoc ms
  some {
    date, commit, testLoc
    production := Json.rawField "production" start.production ms
    surfaceArea := Json.rawField "surfaceArea" start.surfaceArea ms
    surfaceAreaLists := Json.rawField "surfaceAreaLists" start.surfaceAreaLists ms
    antipatterns := Json.rawField "antipatterns" start.antipatterns ms
    hotspots := Json.rawField "hotspots" start.hotspots ms }

/-- Reads a JSON value into a snapshot. -/
def decode : Snapshot → Json → Option Snapshot := Json.decodeRecord ofMembers

/-- The text of a snapshot in a store. -/
def encode? (s : Snapshot) : Option Text := (s.json? true).map Json.compact

/-- Reads the text of a snapshot. -/
def parse? (t : Text) : Option Snapshot := (Json.parse? t).bind (decode {})

end Snapshot

end MetricHistory
