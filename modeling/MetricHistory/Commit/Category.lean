import MetricHistory.Text.Blank
import MetricHistory.Text.Case

/-!
# Categories of commits

A commit is put into a category by how its subject line begins.

* `Category.openings` lists the words that mark each category.
* `Category.ofSubject` compares them with the subject, ignoring case and the white space
  around the subject.
-/

namespace MetricHistory

/-- The intent of a commit.  Documents may carry labels that are none of the four. -/
inductive Category where
  | bug
  | feature
  | maintenance
  | unknown
  | other (label : Text)
deriving DecidableEq, Repr

namespace Category

/-- The label of a category in documents. -/
def label : Category → Text
  | bug => "Bug"
  | feature => "Feature"
  | maintenance => "Maintenance"
  | unknown => "Unknown"
  | other l => l

/-- The category with a given label. -/
def ofLabel (l : Text) : Category :=
  if l = bug.label then bug
  else if l = feature.label then feature
  else if l = maintenance.label then maintenance
  else if l = unknown.label then unknown
  else other l

/-- The four categories in the order in which they are listed. -/
def all : List Category := [bug, feature, maintenance, unknown]

/-- How subjects of each category begin.  Earlier entries win. -/
def openings : List (Category × List String) :=
  [(bug, ["fix:", "bug:", "[bugfix]", "[!!!][bugfix]"]),
   (feature, ["feat:", "[feature]", "[!!!][feature]"]),
   (maintenance,
     ["task:", "docs:", "ci:", "test:", "perf:", "chore:", "refactor:", "[task]", "[docs]"])]

/-- The category of a commit with the given subject line. -/
def ofSubject (subject : Text) : Category :=
  let s := subject.trim.lower
  match openings.find? fun (_, words) => words.any fun w => s.startsWith w with
  | some (category, _) => category
  | none => unknown

end Category

end MetricHistory
