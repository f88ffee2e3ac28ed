import MetricHistory.Commit.Basic
import MetricHistory.Decimal.Binary64

/-!
# Reading the commit log

The history is listed as text.  In the commit log each record begins with the byte `0x1e`; its
first line holds hash, date and subject, separated by NUL bytes, and a line with the number of
inserted and deleted lines may follow.

* `CommitLog.parse` reads such a log, newest commit first.
* `CommitLog.changedLines` adds up insertions and deletions.
* `CommitLog.yearCounts` and `CommitLog.monthCounts` count commits per year and per month.
-/

namespace MetricHistory

namespace CommitLog

/-- The byte that begins a record. -/
def recordMark : UInt8 := 0x1E

/-- The first run of digits that is directly followed by `word`, whose first byte is no digit.
`run` holds the digits just before the text. -/
def digitsBefore? (word : Text) (run : Text) : Text → Option Text
  | [] => none
  | b :: t =>
    if Text.isDigit b then digitsBefore? word (run ++ [b]) t
    else if !run.isEmpty && word.isPrefixOf (b :: t) then some run
    else digitsBefore? word [] t

/-- The number in front of `word`, at most the largest 64-bit integer; zero without one. -/
def countBefore (word line : Text) : Int :=
  match digitsBefore? word [] line with
  | none => 0
  | some ds => min maxInt64 ((Text.nat? ds).getD 0)

/-- Insertions plus deletions of the first line that speaks of changes. -/
def changedLines (block : Text) : Int :=
  match block.lines.find? (Text.hasPart "changed") with
  | none => 0
  | some line => wrap64 (countBefore " insertion" line + countBefore " deletion" line)

/-- The three fields of a record's first line.  The subject may contain further NUL bytes. -/
def headerFields? (header : Text) : Option (Text × Text × Text) := do
  let (hash, rest) ← header.cut? 0
  let (date, subject) ← rest.cut? 0
  some (hash, date, subject)

/-- The commit of a record; `none` when its first line is malformed. -/
def commit? (record : Text) : Option Commit := do
  let (header, body) := (record.cut? 10).getD (record, [])
  let (hash, date, subject) ← headerFields? header
  let date ← Time.parse? date
  some {
    hash := hash
    shortHash := MetricHistory.shortHash CommitDelta.hashLength hash
    date := date
    subject := subject
    category := Category.ofSubject subject
    lines := changedLines body }

/-- The commits in order of their dates, newest first; commits of the same instant stay in log
order. -/
def newestFirst (commits : List Commit) : List Commit :=
  commits.mergeSort fun a b => !b.date.after a.date

/-- Reads a commit log.  Malformed records are left out. -/
def parse (log : Text) : List Commit :=
  newestFirst ((log.splitOn recordMark).filterMap commit?)

/-! ### Histograms -/

/-- The year on a line, if it is a 64-bit integer. -/
def year? (line : Text) : Option Int := do
  let y ← Text.int? line.trim
  if minInt64 ≤ y ∧ y ≤ maxInt64 then some y else none

/-- The number of commits per year, ascending; each line holds the year of a commit. -/
def yearCounts (log : Text) : List YearCount :=
  let years := log.lines.filterMap year?
  (years.eraseDups.mergeSort (· ≤ ·)).map fun y => ⟨y, years.count y⟩

/-- The month and the category on a line `month NUL subject`. -/
def monthEntry? (line : Text) : Option (Text × Category) :=
  (line.cut? 0).map fun (month, subject) => (month.trim, Category.ofSubject subject)

/-- The bucket of one month. -/
def monthCount (entries : List (Text × Category)) (month : Text) : MonthCount :=
  (entries.filter (·.1 == month)).foldl (fun m e => m.add e.2) { date := month }

/-- The number of commits per month, ascending; each line holds the month and the subject of a
commit. -/
def monthCounts (log : Text) : List MonthCount :=
  let entries := log.lines.filterMap monthEntry?
  (Text.sort (entries.map (·.1)).eraseDups).map (monthCount entries)

end CommitLog

end MetricHistory
