import MetricHistory.Git.Store
import MetricHistory.Process

/-!
# Computers

A computer has programs, and version control stores that lie at places of its files.
-/

namespace MetricHistory

/-- A computer with its programs and its version control stores. -/
structure Machine where
  programs : Programs := {}
  stores : List (Place × Git.Store) := []

end MetricHistory
