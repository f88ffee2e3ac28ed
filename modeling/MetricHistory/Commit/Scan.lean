import MetricHistory.Repository

/-!
# Recent changes

What a commit does to the metrics is the difference between two sparse exports: the files it
touched as they were before, and as they are after it.

* `ScanPlan.delta` measures one commit against its first parent.
* `ScanPlan.scan` goes through commits until enough of them have moved a metric.
-/

namespace MetricHistory

/-- What is called after each step with its number, the number of steps and a label. -/
abbrev ProgressHook (σ : Type) := Nat → Nat → Text → Action σ Unit

/-- A hook that does nothing. -/
def ProgressHook.none {σ : Type} : ProgressHook σ := fun _ _ _ => pure ()

/-- What is needed to measure commits, and the scratch directory to do it in. -/
structure ScanPlan (σ : Type) where
  repository : Repository σ
  measurer : Measurer σ
  extensions : List Text
  workDir : Text
  fields : LogFields := []

namespace ScanPlan

variable {σ : Type} (p : ScanPlan σ)

/-- The field that names a commit in the log. -/
def commitField (hash : Text) : Text × LogValue :=
  (Text.ofString "commit", .text (shortHash CommitDelta.hashLength hash))

/-- The field that names a failure in the log. -/
def errorField (f : Failure) : Text × LogValue := (Text.ofString "error", .text f.message)

/-- Measures an export.  What is not available counts as zero. -/
def measure (dir hash : Text) : Action σ Fragment := do
  let m ← p.measurer.measure dir
  match m.failure? with
  | some f =>
    Action.log .debug "Measurement unavailable, counting as zero"
      (p.fields ++ [commitField hash, errorField f])
  | none => pure ()
  return m.fragment

/-- The first parent of a commit, `none` for a commit without one. -/
def parent? (hash : Text) : Attempt σ (Option Text) := fun w =>
  match (p.repository.parent hash).run w with
  | (.ok parent, w) => (.ok (some parent), w)
  | (.error f, w) => (if f.isNoParent then .ok none else .error f, w)

/-- The movement from the parent of a commit to the commit in some of its files. -/
def compare (parent hash : Text) (paths : List Text) : Attempt σ Movement := do
  let parentDir := Path.join [p.workDir, "parent"]
  let commitDir := Path.join [p.workDir, "commit"]
  let _ ← Attempt.during ("export parent " ++ parent)
    (p.repository.exportSparse parent paths parentDir)
  let _ ← Attempt.during ("export commit " ++ hash)
    (p.repository.exportSparse hash paths commitDir)
  let before ← p.measure parentDir parent
  let after ← p.measure commitDir hash
  return before.movement after

/-- What a commit did to the metrics; `none` for a commit without a parent.  A commit that
touches no sources moves nothing, and nothing is measured for it. -/
def delta (hash : Text) : Attempt σ (Option Movement) := do
  let some parent ← p.parent? hash | return none
  let paths ← p.repository.changedFiles hash p.extensions
  if paths.isEmpty then return some {}
  return some (← p.compare parent hash paths)

/-- The commit as a result, if it moved a metric. -/
def kept (commit : Commit) : Option Movement → List CommitDelta
  | some m => if m.isChange then [CommitDelta.ofCommit commit m] else []
  | none => []

/-- Goes through the commits that are left, with the results so far. -/
def scanFrom (target total : Nat) (hook : ProgressHook σ) :
    Nat → List CommitDelta → List Commit → Action σ (List CommitDelta × Option Failure)
  | _, found, [] => return (found, none)
  | done, found, commit :: rest => do
    if target ≤ found.length then return (found, none)
    if ← Action.isCanceled then return (found, some .canceled)
    let outcome ← (p.delta commit.hash).run
    hook (done + 1) total commit.shortHash
    match outcome with
    | .error f =>
      Action.log .warn "Skipping commit" (p.fields ++ [commitField commit.hash, errorField f])
      scanFrom target total hook (done + 1) found rest
    | .ok movement? =>
      scanFrom target total hook (done + 1) (found ++ kept commit movement?) rest

/-- The first `target` commits that moved a metric, and the reason if the scan broke off.
Commits that cannot be measured are left out.  The scratch directory is gone afterwards, also when
the scan breaks down because there is no room for less than no results. -/
def scan (target : Int) (hook : ProgressHook σ) (commits : List Commit) :
    Action σ (List CommitDelta × Option Failure) := do
  let result ←
    if target < 0 then pure ([], some .breakdown)
    else p.scanFrom target.toNat commits.length hook 0 [] commits
  Action.discard p.workDir p.fields "Failed to remove commit scratch directory"
  return result

end ScanPlan

end MetricHistory
