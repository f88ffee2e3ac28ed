import MetricHistory.Analyzer.Measurement
import MetricHistory.Commit.Basic
import MetricHistory.World

/-!
# Repositories and measurers

What a collection asks for, whoever answers: `Repository` is the history of a framework and
`Measurer` its analyzer.  Both may change the world and may fail.
-/

namespace MetricHistory

/-- The history of a framework. -/
structure Repository (σ : Type) where
  /-- The hash of the newest commit. -/
  head : Attempt σ Text
  /-- The hash of the newest commit up to the end of a day. -/
  resolve : Time → Attempt σ Text
  /-- The commits from a moment on, newest first. -/
  commitsSince : Time → Attempt σ (List Commit)
  /-- The number of commits in each year. -/
  commitsPerYear : Attempt σ (List YearCount)
  /-- The number of commits in each month by category. -/
  commitsPerMonth : Attempt σ (List MonthCount)
  /-- The first parent of a commit. -/
  parent : Text → Attempt σ Text
  /-- The paths with one of the extensions that a commit changed. -/
  changedFiles : Text → List Text → Attempt σ (List Text)
  /-- Replaces a directory by the tree of a commit. -/
  exportFull : Text → Text → Attempt σ Unit
  /-- Replaces a directory by some files of a commit, and gives their number. -/
  exportSparse : Text → List Text → Text → Attempt σ Nat

/-- The analyzer of a framework. -/
structure Measurer (σ : Type) where
  /-- Measures a full tree. -/
  measureFull : Text → Attempt σ Document
  /-- Measures the files of a change. -/
  measure : Text → Action σ Measurement

end MetricHistory
