import MetricHistory.Snapshot.Basic

/-!
# Reports

A report holds everything collected for one framework: the commits of each month and year, the
snapshot series, and the recent commits that moved the metrics.

* `Report.encode?` writes a report as an indented JSON document, and fails when a finding of a
  snapshot is no JSON text or the time of the report has no strict RFC 3339 form.
* `Report.parse?` reads one.
-/

namespace MetricHistory

/-- What was collected for a framework. -/
structure Report where
  framework : Text := []
  generated : Time := Time.zero
  commitsMonthly : List MonthCount := []
  snapshots : List Snapshot := []
  commits : List CommitDelta := []
  commitsPerYear : List YearCount := []

namespace Report

/-! ### Writing -/

/-- The commits of a month as a JSON value. -/
def monthJson (m : MonthCount) : Json :=
  Json.record
    [("date", Json.ofText false m.date), ("total", Json.ofInt m.total),
     ("features", Json.ofInt m.features), ("bugs", Json.ofInt m.bugs),
     ("maintenance", Json.ofInt m.maintenance), ("unknown", Json.ofInt m.unknown)]

/-- A moving commit as a JSON value. -/
def deltaJson (d : CommitDelta) : Json :=
  Json.record
    [("hash", Json.ofText false d.hash), ("date", Json.ofText false d.date),
     ("type", Json.ofText false d.category.label), ("message", Json.ofText false d.message),
     ("locDelta", Json.ofInt d.movement.loc), ("ccnDelta", Snapshot.number d.movement.ccn),
     ("miDelta", Snapshot.number d.movement.mi),
     ("antipatternsDelta", Json.ofInt d.movement.antipatterns)]

/-- The commits of a year as a JSON value. -/
def yearJson (y : YearCount) : Json :=
  Json.record [("year", Json.ofInt y.year), ("commits", Json.ofInt y.commits)]

/-- The report as a JSON value. -/
def json? (r : Report) : Option Json := do
  let snapshots ← r.snapshots.mapM (Snapshot.json? false)
  if !r.generated.isStrict then none
  else
    some (Json.record
      [("framework", Json.ofText false r.framework),
       ("generated", Json.ofText false (r.generated.rfc3339 true)),
       ("commitsMonthly", Json.list (r.commitsMonthly.map monthJson)),
       ("snapshots", Json.list snapshots),
       ("commits", Json.list (r.commits.map deltaJson)),
       ("commitsPerYear", Json.list (r.commitsPerYear.map yearJson))])

/-- The text of a report. -/
def encode? (r : Report) : Option Text := r.json?.map fun j => j.indented 0 ++ "\n"

/-! ### Reading -/

/-- Reads the commits of a month. -/
def decodeMonth : MonthCount → Json → Option MonthCount :=
  Json.decodeRecord fun start ms => do
    let date ← Json.field "date" Json.decodeText start.date ms
    let total ← Json.field "total" Json.decodeInt start.total ms
    let features ← Json.field "features" Json.decodeInt start.features ms
    let bugs ← Json.field "bugs" Json.decodeInt start.bugs ms
    let maintenance ← Json.field "maintenance" Json.decodeInt start.maintenance ms
    let unknown ← Json.field "unknown" Json.decodeInt start.unknown ms
    some { date, total, features, bugs, maintenance, unknown }

/-- Reads a moving commit. -/
def decodeDelta : CommitDelta → Json → Option CommitDelta :=
  Json.decodeRecord fun start ms => do
    let m := start.movement
    let hash ← Json.field "hash" Json.decodeText start.hash ms
    let date ← Json.field "date" Json.decodeText start.date ms
    let label ← Json.field "type" Json.decodeText start.category.label ms
    let message ← Json.field "message" Json.decodeText start.message ms
    let loc ← Json.field "locDelta" Json.decodeInt m.loc ms
    let ccn ← Json.field "ccnDelta" Json.decodeFloat m.ccn ms
    let mi ← Json.field "miDelta" Json.decodeFloat m.mi ms
    let antipatterns ← Json.field "antipatternsDelta" Json.decodeInt m.antipatterns ms
    some {
      hash, date, message
      category := Category.ofLabel label
      movement := { loc, ccn, mi, antipatterns } }

/-- Reads the commits of a year. -/
def decodeYear : YearCount → Json → Option YearCount :=
  Json.decodeRecord fun start ms => do
    let year ← Json.field "year" Json.decodeInt start.year ms
    let commits ← Json.field "commits" Json.decodeInt start.commits ms
    some { year, commits }

/-- Reads a report. -/
def decode : Report → Json → Option Report :=
  Json.decodeRecord fun start ms => do
    let framework ← Json.field "framework" Json.decodeText start.framework ms
    let generated ← Json.field "generated" Json.decodeTime start.generated ms
    let commitsMonthly ←
      Json.field "commitsMonthly" (Json.decodeList {} decodeMonth) start.commitsMonthly ms
    let snapshots ←
      Json.field "snapshots" (Json.decodeList {} Snapshot.decode) start.snapshots ms
    let commits ← Json.field "commits" (Json.decodeList {} decodeDelta) start.commits ms
    let commitsPerYear ←
      Json.field "commitsPerYear" (Json.decodeList {} decodeYear) start.commitsPerYear ms
    some { framework, generated, commitsMonthly, snapshots, commits, commitsPerYear }

/-- Reads the text of a report. -/
def parse? (t : Text) : Option Report := (Json.parse? t).bind (decode {})

end Report

end MetricHistory
