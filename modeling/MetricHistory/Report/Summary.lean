import MetricHistory.Output.Block
import MetricHistory.Report.Basic
import MetricHistory.Statistics
import MetricHistory.Text.Human

/-!
# Summaries of reports

A summary condenses a report for people: the snapshot series with its trends, what kinds of
recent commits moved the metrics, and how many commits there were.

* `Summary.ofReport` computes it; a snapshot whose figures cannot be read is an error.
* `Summary.block` lays it out.
-/

namespace MetricHistory

/-- The headline figures of a snapshot. -/
structure SnapshotRow where
  date : Text
  commit : Text
  loc : Int
  ccnSum : Float
  miDebtSum : Float
  testLoc : Float

/-- A condensed report. -/
structure Summary where
  framework : Text
  generated : Time
  snapshots : List SnapshotRow
  locTrend : Trend
  ccnTrend : Trend
  commitTypes : List (Category × Nat)
  ccnDeltaP90 : Float
  totalCommits : Int
  busiestYear : YearCount

namespace Summary

/-- The snapshot of this date has figures that cannot be read. -/
structure Unreadable where
  date : Text

/-- The wording of the error. -/
def Unreadable.message (e : Unreadable) : Text := "snapshot " ++ e.date

/-- The row of a snapshot. -/
def row (s : Snapshot) : Except Unreadable SnapshotRow :=
  let figures? : Option (Int × Float × Float) :=
    if s.production.isEmpty then some (0, 0, 0)
    else (Json.parse? s.production).bind fun j =>
      Json.decodeRecord (fun start ms => do
        let loc ← Json.field "loc" Json.decodeInt start.1 ms
        let ccn ← Json.field "ccnSum" Json.decodeFloat start.2.1 ms
        let mi ← Json.field "miDebtSum" Json.decodeFloat start.2.2 ms
        some (loc, ccn, mi)) (0, 0, 0) j
  match figures? with
  | none => .error ⟨s.date⟩
  | some (loc, ccn, mi) =>
    .ok {
      date := s.date, commit := s.commit, loc := loc, ccnSum := ccn, miDebtSum := mi
      testLoc := s.testLoc }

/-- How often each category occurs, by first occurrence. -/
def countCategories (cs : List Category) : List (Category × Nat) :=
  cs.eraseDups.map fun c => (c, cs.count c)

/-- The first year with the largest positive count, or a zero count. -/
def busiest (years : List YearCount) : YearCount :=
  years.foldl (fun best y => if y.commits > best.commits then y else best) {}

/-- The summary of a report. -/
def ofReport (r : Report) : Except Unreadable Summary := do
  let rows ← r.snapshots.mapM row
  let moves := (r.commits.map fun c => c.movement.ccn.abs).mergeSort fun a b => decide (a ≤ b)
  return {
    framework := r.framework
    generated := r.generated
    snapshots := rows
    locTrend := Trend.ofSeries (rows.map fun s => Binary64.ofInt s.loc)
    ccnTrend := Trend.ofSeries (rows.map (·.ccnSum))
    commitTypes := countCategories (r.commits.map (·.category))
    ccnDeltaP90 := (percentile? 0 moves 90).getD 0
    totalCommits := wrap64 ((r.commitsPerYear.map (·.commits)).foldl (· + ·) 0)
    busiestYear := busiest r.commitsPerYear }

/-! ### Layout -/

/-- The number of commits of a category. -/
def count (s : Summary) (c : Category) : Nat := (s.commitTypes.lookup c).getD 0

/-- The lines above the tables, seen at the time `now`. -/
def overview (now : Time) (s : Summary) : Text :=
  let busiest : Text :=
    if s.busiestYear.commits > 0 then
      ", busiest year " ++ Text.ofInt s.busiestYear.year ++ " (" ++
        Human.comma s.busiestYear.commits ++ ")"
    else []
  let trend (name : Text) (places : Nat) (t : Trend) : Text :=
    name ++ " trend: " ++ fixedSigned places t.slope ++ " per sample (r²=" ++ fixed 2 t.rSquared ++
      ")"
  let trends : List Text :=
    if s.snapshots.length < 2 then []
    else [trend "LOC" 0 s.locTrend, trend "CCN" 1 s.ccnTrend]
  Text.join "\n"
    (("Generated: " ++ s.generated.date.iso ++ " (" ++ Human.age now s.generated ++ ")") ::
      ("Commits: " ++ Human.comma s.totalCommits ++ busiest) :: trends)

/-- The table of snapshots. -/
def snapshotTable (s : Summary) : Output.Table :=
  { title := "Snapshots"
    headers := ["Period", "Commit", "LOC", "CCN", "MI debt", "Test LOC"].map Text.ofString
    rows := s.snapshots.map fun r =>
      [r.date, r.commit, Human.comma r.loc, Human.commaDecimal 1 r.ccnSum,
        Human.commaDecimal 1 r.miDebtSum, Human.comma (Binary64.truncate r.testLoc)] }

/-- The table of commit types, the four categories in a fixed order. -/
def typeTable (s : Summary) : Output.Table :=
  { title := "Recent commits with metric changes"
    headers := ["Type", "Commits"].map Text.ofString
    rows := Category.all.map fun c => [c.label, Human.comma (s.count c)]
    footer := [Text.ofString "Total", Human.comma ((Category.all.map s.count).foldl (· + ·) 0 : Nat)] }

/-- A trend as a JSON value. -/
def trendJson (t : Trend) : Json :=
  Json.record
    [("slope", Snapshot.number t.slope), ("intercept", Snapshot.number t.intercept),
     ("r_squared", Snapshot.number t.rSquared), ("correlation", Snapshot.number t.correlation)]

/-- A row as a JSON value. -/
def rowJson (r : SnapshotRow) : Json :=
  Json.record
    [("date", Json.ofText true r.date), ("commit", Json.ofText true r.commit),
     ("loc", Json.ofInt r.loc), ("ccnSum", Snapshot.number r.ccnSum),
     ("miDebtSum", Snapshot.number r.miDebtSum), ("testLoc", Snapshot.number r.testLoc)]

/-- The summary as a JSON value. -/
def json (s : Summary) : Json :=
  let types := s.commitTypes.foldl
    (fun ms (c, n) => Json.insertMember c.label (Json.ofInt n) ms) []
  Json.record
    [("framework", Json.ofText true s.framework),
     ("generated", Json.ofText true (s.generated.rfc3339 true)),
     ("snapshots", Json.list (s.snapshots.map rowJson)),
     ("locTrend", trendJson s.locTrend), ("ccnTrend", trendJson s.ccnTrend),
     ("commitTypes", Json.record (types.map fun (k, j) => (Literal.escape true k, j))),
     ("ccnDeltaP90", Snapshot.number s.ccnDeltaP90), ("totalCommits", Json.ofInt s.totalCommits),
     ("busiestYear", Json.record [("year", Json.ofInt s.busiestYear.year),
       ("commits", Json.ofInt s.busiestYear.commits)])]

/-- The summary laid out, seen at the time `now`. -/
def block (now : Time) (s : Summary) : Output.Block :=
  .report (s.framework ++ " metrics")
    [.section { title := "Overview", content := s.overview now }, .table s.snapshotTable,
      .table s.typeTable]
    (some s.json)

end Summary

end MetricHistory
