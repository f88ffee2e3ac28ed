import MetricHistory.Git.Diff

/-!
# The text of a history

A history is listed as text: `Git.commitLog` with the hash, date and subject of each revision and
the size of its change, `Git.yearLog` and `Git.monthLog` with the dates of authorship.
-/

namespace MetricHistory

namespace Git

/-- A number of things, with the ending for more than one. -/
def counted (n : Nat) (one many : Text) : Text :=
  Text.ofNat n ++ " " ++ (if n = 1 then one else many)

/-- The line that says how large a difference is. -/
def DiffSize.line (d : DiffSize) : Text :=
  let plus := counted d.insertions "insertion(+)" "insertions(+)"
  let minus := counted d.deletions "deletion(-)" "deletions(-)"
  let parts : List Text :=
    if d.insertions = 0 && d.deletions = 0 then [plus, minus]
    else if d.deletions = 0 then [plus]
    else if d.insertions = 0 then [minus]
    else [plus, minus]
  " " ++ Text.join ", " (counted d.files "file changed" "files changed" :: parts) ++ "\n"

/-- The difference that a revision makes; none is shown for a merge. -/
def Store.change? (s : Store) (r : Revision) : Option DiffSize :=
  let size := match r.parents with
    | [] => some (diffSize [] r.tree)
    | [p] => (s.revision? p).map fun (parent : Revision) => diffSize parent.tree r.tree
    | _ => none
  size.filter fun d => d.files != 0

/-- The entry of a revision in the log. -/
def Store.logEntry (s : Store) (r : Revision) : Text :=
  let size : Text := match s.change? r with
    | some d => "\n" ++ d.line
    | none => []
  let header := Text.join [0] [r.hash, r.committed.rfc3339 false, subject r.message]
  0x1E :: header ++ [10] ++ size

/-- The log of revisions. -/
def Store.commitLog (s : Store) (rs : List Revision) : Text := rs.flatMap s.logEntry

/-- The years of authorship, one on a line. -/
def yearLog (rs : List Revision) : Text :=
  rs.flatMap fun r => Text.ofInt r.authored.date.year ++ [10]

/-- The months of authorship with the subjects, one on a line. -/
def monthLog (rs : List Revision) : Text :=
  rs.flatMap fun r => Text.join [0] [r.authored.date.yearMonth, subject r.message] ++ [10]

end Git

end MetricHistory
