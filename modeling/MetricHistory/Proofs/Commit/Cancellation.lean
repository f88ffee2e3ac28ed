import MetricHistory.Proofs.Collection.Cancellation

/-!
# Scans that are called off

A scan takes notice that the work is called off before each commit, but not after the last one it
examines.  What is measured once the work is called off counts as zero, so that the last commit may
seem to move a metric.

* `ScanPlan.examine` is one round of a scan, and `ScanPlan.CutOff` says that the work is called off
  during the last one;
* `ScanPlan.scanFrom_sound` : what a scan finds is what the scan finds that is never called off, up to
  one commit at the end;
* `ScanPlan.scan_canceled_iff` : **a scan that is called off fails, or finds what the scan finds that
  is never called off, if it is not cut off.**
-/

namespace MetricHistory

open MetricHistory.Action (Follows)

namespace ScanPlan

variable {σ : Type} {p : ScanPlan σ} {r : Repository σ} {m : Measurer σ}
  {hook hook' : ProgressHook σ} {target total done : Nat} {found : List CommitDelta}
  {commit : Commit} {rest : List Commit} {w : World σ}

/-! ### Rounds -/

/-- One round of a scan: what has been found once the commit is examined. -/
def examine (p : ScanPlan σ) (total : Nat) (hook : ProgressHook σ) (done : Nat)
    (found : List CommitDelta) (commit : Commit) : Action σ (List CommitDelta) := do
  let outcome ← (p.delta commit.hash).run
  hook (done + 1) total commit.shortHash
  match outcome with
  | .error f =>
    Action.log .warn "Skipping commit" (p.fields ++ [commitField commit.hash, errorField f])
    return found
  | .ok movement? => return found ++ kept commit movement?

theorem scanFrom_cons :
    p.scanFrom target total hook done found (commit :: rest) =
      if target ≤ found.length then pure (found, none)
      else (do
        if ← Action.isCanceled then return (found, some .canceled)
        let found ← p.examine total hook done found commit
        p.scanFrom target total hook (done + 1) found rest) := by
  rw [scanFrom]
  refine if_congr Iff.rfl rfl (bind_congr fun canceled => ?_)
  cases canceled with
  | true => rfl
  | false =>
    simp only [examine, Bool.false_eq_true, if_false, bind_assoc]
    refine bind_congr fun outcome => bind_congr fun _ => ?_
    rcases outcome with f | movement?
    · simp only [bind_assoc, pure_bind]
    · simp only [pure_bind]

theorem scanFrom_run_cons (hopen : found.length < target) (hw : w.canceled = false) :
    (p.scanFrom target total hook done found (commit :: rest)).run w =
      let next := (p.examine total hook done found commit).run w
      (p.scanFrom target total hook (done + 1) next.1 rest).run next.2 := by
  have hchecked : (Action.isCanceled : Action σ Bool).run w = (false, w) := by
    rw [← hw]
    rfl
  rw [scanFrom_cons, if_neg (Nat.not_le.2 hopen), run_seq, hchecked]
  rfl

theorem scanFrom_run_of_le (h : target ≤ found.length) (commits : List Commit) :
    (p.scanFrom target total hook done found commits).run w = ((found, none), w) := by
  cases commits with
  | nil => rfl
  | cons commit rest =>
    rw [scanFrom_cons, if_pos h]
    rfl

/-- A scan that the work was called off for before fails if there is more to do. -/
theorem scanFrom_run_canceled (hw : w.canceled = true) (commits : List Commit) :
    (p.scanFrom target total hook done found commits).run w =
      ((found, if commits = [] ∨ target ≤ found.length then none else some .canceled), w) := by
  cases commits with
  | nil => rfl
  | cons commit rest =>
    by_cases h : target ≤ found.length
    · rw [scanFrom_run_of_le h, if_pos (.inr h)]
    · have hmore : ¬ (commit :: rest = [] ∨ target ≤ found.length) := by simpa using h
      have hchecked : (Action.isCanceled : Action σ Bool).run w = (true, w) := by
        rw [← hw]
        rfl
      rw [if_neg hmore, scanFrom_cons, if_neg h, run_seq, hchecked]
      rfl

theorem examine_run (p : ScanPlan σ) (total : Nat) (hook : ProgressHook σ) (done : Nat)
    (found : List CommitDelta) (commit : Commit) (w : World σ) :
    ∃ new, ((p.examine total hook done found commit).run w).1 = found ++ new ∧ new.length ≤ 1 := by
  rw [examine, run_seq, run_seq]
  rcases ((p.delta commit.hash).run.run w).1 with f | movement?
  · exact ⟨[], (List.append_nil found).symm, Nat.zero_le 1⟩
  · refine ⟨kept commit movement?, rfl, ?_⟩
    unfold kept
    split
    · split <;> simp
    · simp

theorem prefix_scanFrom (commits : List Commit) :
    found <+: ((p.scanFrom target total hook done found commits).run w).1.1 := by
  induction commits generalizing done found w with
  | nil => exact List.prefix_rfl
  | cons commit rest ih =>
    rcases Nat.lt_or_ge found.length target with hopen | hfull
    · cases hw : w.canceled with
      | true =>
        rw [scanFrom_run_canceled hw]
      | false =>
        obtain ⟨new, hnew, -⟩ := p.examine_run total hook done found commit w
        rw [scanFrom_run_cons hopen hw]
        refine List.IsPrefix.trans ?_ ih
        rw [hnew]
        exact List.prefix_append found new
    · rw [scanFrom_run_of_le hfull]

/-! ### The round that is cut off -/

/-- The work is called off during the round after which a scan comes to its end, because there are no
more commits or because enough are found. -/
inductive CutOff (p : ScanPlan σ) (target total : Nat) (hook : ProgressHook σ) :
    Nat → List CommitDelta → List Commit → World σ → Prop
  | last {done : Nat} {found : List CommitDelta} {commit : Commit} {rest : List Commit} {w : World σ}
    (hopen : found.length < target) (hw : w.canceled = false)
    (hoff : ((p.examine total hook done found commit).run w).2.canceled = true)
    (hend : rest = [] ∨ target ≤ ((p.examine total hook done found commit).run w).1.length) :
    CutOff p target total hook done found (commit :: rest) w
  | next {done : Nat} {found : List CommitDelta} {commit : Commit} {rest : List Commit} {w : World σ}
    (hopen : found.length < target) (hw : w.canceled = false)
    (hlater : CutOff p target total hook (done + 1)
      ((p.examine total hook done found commit).run w).1 rest
      ((p.examine total hook done found commit).run w).2) :
    CutOff p target total hook done found (commit :: rest) w

theorem CutOff.unnoticed {commits : List Commit}
    (h : p.CutOff target total hook done found commits w) :
    ((p.scanFrom target total hook done found commits).run w).1.2 = none := by
  induction h with
  | last hopen hw hoff hend =>
    rw [scanFrom_run_cons hopen hw]
    dsimp only
    rw [scanFrom_run_canceled hoff, if_pos hend]
  | next hopen hw _ ih =>
    rw [scanFrom_run_cons hopen hw]
    exact ih

section Follows

variable (hcalls : p.Calls r m)
  (hhook : ∀ done total label, Follows Eq (hook done total label) (hook' done total label))
include hcalls hhook

theorem examine_follows (total done : Nat) (found : List CommitDelta) (commit : Commit) :
    Follows Eq (p.examine total hook done found commit)
      ((p.onto r m).examine total hook' done found commit) := by
  refine (delta_follows hcalls commit.hash).bind ?_
  rintro outcome _ (⟨rfl⟩ | f)
  · exact (hhook _ _ _).then fun _ => .pure rfl
  · exact (hhook _ _ _).then fun _ => (Action.log_follows _ _ _).then fun _ => .pure rfl

/-- **What a scan finds is what the scan finds that is never called off, up to one commit at the
end**, and if it finds something else without failing, it was cut off. -/
theorem scanFrom_sound (target total : Nat) (commits : List Commit) (done : Nat)
    (found : List CommitDelta) (hw : w.canceled = false) :
    let result := ((p.scanFrom target total hook done found commits).run w).1
    let normal := (((p.onto r m).scanFrom target total hook' done found commits).run w).1
    (∃ sound new, result.1 = sound ++ new ∧ sound <+: normal.1 ∧ new.length ≤ 1) ∧
      (result.2 = some .canceled ∨ (result.2 = none ∧ result.1 = normal.1) ∨
        p.CutOff target total hook done found commits w) := by
  induction commits generalizing done found w with
  | nil =>
    exact ⟨⟨found, [], (List.append_nil found).symm, List.prefix_rfl, Nat.zero_le 1⟩,
      .inr (.inl ⟨rfl, rfl⟩)⟩
  | cons commit rest ih =>
    intro result normal
    rcases Nat.lt_or_ge found.length target with hopen | hfull
    · have hresult : result = ((p.scanFrom target total hook done found (commit :: rest)).run w).1 :=
        rfl
      have hnormal : normal =
          (((p.onto r m).scanFrom target total hook' done found (commit :: rest)).run w).1 := rfl
      have hround := examine_follows hcalls hhook total done found commit
      cases hoff : ((p.examine total hook done found commit).run w).2.canceled with
      | false =>
        -- both scans go on alike
        obtain ⟨hsame, hworld⟩ := hround.same w hw hoff
        rw [scanFrom_run_cons hopen hw] at hresult hnormal
        dsimp only at hresult hnormal
        rw [← hsame, ← hworld] at hnormal
        rw [hresult, hnormal]
        refine (ih (done + 1) _ hoff).imp_right (Or.imp_right (Or.imp_right fun h => ?_))
        exact .next hopen hw h
      | true =>
        obtain ⟨new, hnew, hlength⟩ := p.examine_run total hook done found commit w
        rw [scanFrom_run_cons hopen hw] at hresult
        dsimp only at hresult
        rw [scanFrom_run_canceled hoff] at hresult
        refine ⟨⟨found, new, ?_, prefix_scanFrom _, hlength⟩, ?_⟩
        · rw [hresult, ← hnew]
        · by_cases hend : rest = [] ∨
              target ≤ ((p.examine total hook done found commit).run w).1.length
          · exact .inr (.inr (.last hopen hw hoff hend))
          · left
            rw [hresult, if_neg hend]
    · have hresult : result = (found, none) := congrArg Prod.fst (scanFrom_run_of_le hfull _)
      have hnormal : normal = (found, none) := congrArg Prod.fst (scanFrom_run_of_le hfull _)
      rw [hresult, hnormal]
      exact ⟨⟨found, [], (List.append_nil found).symm, List.prefix_rfl, Nat.zero_le 1⟩,
        .inr (.inl ⟨rfl, rfl⟩)⟩

/-- **A scan that is called off fails, or finds what the scan finds that is never called off, exactly
if it is not cut off or finds the same all the same.**  In any case only the last commit that it
finds can be wrong. -/
theorem scan_canceled_iff (target : Nat) (commits : List Commit) (w : World σ) :
    let result := ((p.scan target hook commits).run w).1
    let normal :=
      (((p.onto r m).scan target hook' commits).run { w with canceled := false }).1
    ((result.2 = some .canceled ∨ (result.2 = none ∧ result.1 = normal.1)) ↔
        (p.CutOff target commits.length hook 0 [] commits w → result.1 = normal.1)) ∧
      ∃ sound new, result.1 = sound ++ new ∧ sound <+: normal.1 ∧ new.length ≤ 1 := by
  obtain ⟨_, hrun⟩ := scan_run p target hook commits w
  obtain ⟨_, hrun'⟩ := scan_run (p.onto r m) target hook' commits { w with canceled := false }
  rw [hrun, hrun']
  dsimp only
  cases hw : w.canceled with
  | false =>
    have hstart : { w with canceled := false } = w := by rw [← hw]
    obtain ⟨hsound, hcases⟩ := scanFrom_sound hcalls hhook target commits.length commits 0 [] hw
    rw [hstart]
    refine ⟨⟨fun h hcut => ?_, fun h => ?_⟩, hsound⟩
    · rcases h with hfails | ⟨-, hsame⟩
      · rw [hcut.unnoticed] at hfails
        cases hfails
      · exact hsame
    · rcases hcases with hfails | hsame | hcut
      · exact .inl hfails
      · exact .inr hsame
      · exact .inr ⟨hcut.unnoticed, h hcut⟩
  | true =>
    rw [scanFrom_run_canceled hw]
    -- called off before the start, the scan fails unless there is nothing to do
    have hcut : ¬ p.CutOff target commits.length hook 0 [] commits w := by
      rintro (⟨-, hgoing, -, -⟩ | ⟨-, hgoing, -⟩) <;> rw [hw] at hgoing <;> cases hgoing
    refine ⟨⟨fun _ h => absurd h hcut, fun _ => ?_⟩,
      [], [], rfl, List.nil_prefix, Nat.zero_le 1⟩
    by_cases hend : commits = [] ∨ target ≤ ([] : List CommitDelta).length
    · right
      refine ⟨if_pos hend, ?_⟩
      rcases hend with rfl | hfull
      · rfl
      · have hnormal : ((p.onto r m).scanFrom target commits.length hook' 0 [] commits).run
            { w with canceled := false } = (([], none), { w with canceled := false }) :=
          scanFrom_run_of_le hfull commits
        rw [hnormal]
    · exact .inl (if_neg hend)

end Follows

/-! A commit that moves nothing, measured while the work is called off. -/

open Collection (countdown endless smallHistory smallAnalyzer)

/-- An analyzer that finds one antipattern in every tree, asked through `ask`. -/
def steadyAnalyzer (ask : ∀ {α : Type}, α → Attempt Nat α) : Measurer Nat :=
  { smallAnalyzer ask with
    measure := fun _ => do
      match ← (ask (Measurement.measured { antipatterns := 1 })).run with
      | .ok measured => return measured
      | .error f => return .unavailable f }

/-- A scan that asks through `ask`. -/
def steadyScan (ask : ∀ {α : Type}, α → Attempt Nat α) : ScanPlan Nat where
  repository := smallHistory ask
  measurer := steadyAnalyzer ask
  extensions := [".php"]
  workDir := "/scratch"

theorem steadyScan_calls :
    (steadyScan countdown).Calls (smallHistory endless) (steadyAnalyzer endless) where
  parent _ := Collection.countdown_follows rfl
  changedFiles _ := Collection.countdown_follows rfl
  exportSparse _ _ _ := Collection.countdown_follows rfl
  measure _ := by
    refine (Collection.countdown_follows (R := Eq) rfl).bind ?_
    rintro _ _ (⟨rfl⟩ | f) <;> exact .pure rfl

def steadyCommit : Commit where
  hash := "b1"
  shortHash := "b1"
  date := Time.midnight 0 ⟨2024, 2, 1⟩
  subject := "fix"
  category := .bug

/-- What the scan of one commit gives when the work is called off after a number of calls. -/
def steadyRun (calls : Nat) : List CommitDelta × Option Failure :=
  (((steadyScan countdown).scan 1 .none [steadyCommit]).run { outside := calls }).1

/-- What the scan of one commit gives when the work is never called off. -/
def endlessRun (calls : Nat) : List CommitDelta × Option Failure :=
  (((steadyScan endless).scan 1 .none [steadyCommit]).run { outside := calls }).1

/-- The fifth call measures the parent, and the sixth one would measure the commit. -/
theorem steadyRun_fifth :
    (steadyRun 4).2.isNone = true ∧ (steadyRun 4).1.map (·.movement.antipatterns) = [-1] ∧
      (endlessRun 4).1.isEmpty = true := by
  decide +kernel

theorem steadyRun_fails_to_agree :
    ¬ ((steadyRun 4).2 = some .canceled ∨
      ((steadyRun 4).2 = none ∧ (steadyRun 4).1 = (endlessRun 4).1)) := by
  obtain ⟨hnone, hmoved, hempty⟩ := steadyRun_fifth
  rintro (hfails | ⟨-, hsame⟩)
  · rw [hfails] at hnone
    cases hnone
  · rw [hsame, List.isEmpty_iff.1 hempty] at hmoved
    cases hmoved

/-- Called off during the fifth call, the scan is cut off, and the commit it finds is its last one. -/
theorem scan_canceled_iff_fifth :
    (steadyScan countdown).Calls (smallHistory endless) (steadyAnalyzer endless) ∧
      (steadyScan countdown).CutOff 1 1 .none 0 [] [steadyCommit] { outside := 4 } ∧
      ∃ sound new, (steadyRun 4).1 = sound ++ new ∧ sound <+: (endlessRun 4).1 ∧ new.length ≤ 1 := by
  obtain ⟨hiff, hsound⟩ := scan_canceled_iff steadyScan_calls
    (fun _ _ _ => .of_keeps fun _ => rfl : ∀ done total label,
      Follows Eq (ProgressHook.none done total label) (ProgressHook.none done total label))
    1 [steadyCommit] { outside := 4 }
  refine ⟨steadyScan_calls, ?_, hsound⟩
  by_contra hcut
  exact steadyRun_fails_to_agree (hiff.2 fun h => absurd h hcut)

/-- The commit moves nothing.  Measured while the work is called off it seems to have removed an
antipattern, and the scan neither fails nor finds what it finds when the work goes on. -/
theorem scan_canceled_fabricates :
    (steadyScan countdown).Calls (smallHistory endless) (steadyAnalyzer endless) ∧
      (steadyRun 4).1.map (·.movement.antipatterns) = [-1] ∧
      ¬ ((steadyRun 4).2 = some .canceled ∨
        ((steadyRun 4).2 = none ∧ (steadyRun 4).1 = (endlessRun 4).1)) :=
  ⟨steadyScan_calls, steadyRun_fifth.2.1, steadyRun_fails_to_agree⟩

end ScanPlan

end MetricHistory
