import Mathlib
import MetricHistory.Collection.Run
import MetricHistory.Proofs.Commit.Scan

/-!
# Collections that are called off

The work can be called off at any moment: before, during or after any call of a repository or an
analyzer.  What is measured from then on need not mean anything, so that a report must not be made
from it.

A collection is compared with one that is never called off.  `Action.Follows` relates the two step
by step: as long as the work is not called off they do the same, and once it is called off it stays
so.  No more is asked of the measurements, since the numbers of commits are asked for last, by two
queries that fail when the work is called off.

* `Repository.Heeds`, `Measurer.Follows` and `Collection.Heeds` say what calls do when the work is
  called off;
* `Collection.run_canceled` : **a run that is called off fails, or gives the report of the run that
  is never called off.**
-/

namespace MetricHistory

variable {σ α β α' β' : Type}

/-- The same failure, or results in the relation `R`. -/
inductive Alike (R : α → α' → Prop) : Except Failure α → Except Failure α' → Prop
  | ok {a : α} {a' : α'} (h : R a a') : Alike R (.ok a) (.ok a')
  | error (f : Failure) : Alike R (.error f) (.error f)

namespace Action

/-- Work that is called off stays so.  Unless it is called off by the end of `act`, `act` does what
`normal` does, with results in the relation `R`.  Either way `R` relates the result to something. -/
structure Follows (R : α → α' → Prop) (act : Action σ α) (normal : Action σ α') : Prop where
  related : ∀ w, ∃ a', R (act.run w).1 a'
  stays : ∀ w, w.canceled = true → (act.run w).2.canceled = true
  same : ∀ w, w.canceled = false → (act.run w).2.canceled = false →
    R (act.run w).1 (normal.run w).1 ∧ (act.run w).2 = (normal.run w).2

variable {R : α → α' → Prop} {S : β → β' → Prop} {act : Action σ α} {normal : Action σ α'}

theorem Follows.of_keeps {act : Action σ α}
    (h : ∀ w, (act.run w).2.canceled = w.canceled) : Follows Eq act act :=
  ⟨fun _ => ⟨_, rfl⟩, fun w hw => (h w).trans hw, fun _ _ _ => ⟨rfl, rfl⟩⟩

theorem Follows.pure {a : α} {a' : α'} (h : R a a') :
    Follows R (Pure.pure a : Action σ α) (Pure.pure a') :=
  ⟨fun _ => ⟨a', h⟩, fun _ hw => hw, fun _ _ _ => ⟨h, rfl⟩⟩

/-- Actions in a row: when the work is not called off at the end, it was not in between. -/
theorem Follows.bind {k : α → Action σ β} {k' : α' → Action σ β'} (h : Follows R act normal)
    (hk : ∀ a a', R a a' → Follows S (k a) (k' a')) : Follows S (act >>= k) (normal >>= k') := by
  refine ⟨fun w => ?_, fun w hw => ?_, fun w hw hend => ?_⟩ <;> obtain ⟨a', ha⟩ := h.related w
  · exact (hk _ _ ha).related _
  · exact (hk _ _ ha).stays _ (h.stays w hw)
  · have hmiddle : (act.run w).2.canceled = false := by
      cases hc : (act.run w).2.canceled with
      | false => rfl
      | true => exact absurd ((hk _ _ ha).stays _ hc) (by rw [← run_seq, hend]; simp)
    obtain ⟨hresult, hworld⟩ := h.same w hw hmiddle
    rw [run_seq] at hend ⊢
    rw [run_seq, ← hworld]
    exact (hk _ _ hresult).same _ hmiddle hend

theorem Follows.then {act normal : Action σ α} {k : α → Action σ β} {k' : α → Action σ β'}
    (h : Follows Eq act normal) (hk : ∀ a, Follows S (k a) (k' a)) :
    Follows S (act >>= k) (normal >>= k') := by
  refine h.bind fun a a' ha => ?_
  subst ha
  exact hk a

theorem Follows.ite {c : Prop} [Decidable c] {act₁ act₂ : Action σ α} {normal₁ normal₂ : Action σ α'}
    (h₁ : Follows R act₁ normal₁) (h₂ : Follows R act₂ normal₂) :
    Follows R (if c then act₁ else act₂) (if c then normal₁ else normal₂) := by
  split
  · exact h₁
  · exact h₂

theorem get_follows : Follows Eq (get : Action σ (World σ)) get :=
  .of_keeps fun _ => rfl

theorem modify_follows {g : World σ → World σ} (h : ∀ w, (g w).canceled = w.canceled) :
    Follows Eq (modify g : Action σ PUnit) (modify g) :=
  .of_keeps h

theorem log_follows (level : LogLevel) (message : Text) (fields : LogFields) :
    Follows Eq (log level message fields : Action σ Unit) (log level message fields) :=
  .of_keeps fun _ => rfl

theorem onFiles_follows (act : Files α) :
    Follows Eq (onFiles act : Action σ (Except FileError α)) (onFiles act) :=
  .of_keeps fun _ => rfl

theorem isCanceled_follows : Follows Eq (isCanceled : Action σ Bool) isCanceled :=
  .of_keeps fun _ => rfl

theorem discard_follows (dir : Text) (fields : LogFields) (warning : Text) :
    Follows Eq (discard dir fields warning : Action σ Unit) (discard dir fields warning) := by
  refine .of_keeps fun w => ?_
  obtain ⟨log, h⟩ := discard_run dir fields warning w
  rw [h]

end Action

open MetricHistory.Action (Follows)

namespace Attempt

variable {R : α → α' → Prop} {S : β → β' → Prop} {act : Attempt σ α} {normal : Attempt σ α'}

theorem follows_bind {k : α → Attempt σ β} {k' : α' → Attempt σ β'}
    (h : Follows (Alike R) act.run normal.run)
    (hk : ∀ a a', R a a' → Follows (Alike S) (k a).run (k' a').run) :
    Follows (Alike S) (act >>= k).run (normal >>= k').run := by
  change Follows _ (act.run >>= ExceptT.bindCont k) (normal.run >>= ExceptT.bindCont k')
  refine h.bind ?_
  rintro r r' (⟨ha⟩ | f)
  · exact hk _ _ ha
  · exact .pure (.error f)

theorem follows_pure {a : α} {a' : α'} (h : R a a') :
    Follows (Alike R) (pure a : Attempt σ α).run (pure a' : Attempt σ α').run :=
  .pure (.ok h)

theorem follows_throw (f : Failure) :
    Follows (Alike R) (throw f : Attempt σ α).run (throw f : Attempt σ α').run :=
  .pure (.error f)

theorem follows_lift {act : Action σ α} {normal : Action σ α'} (h : Follows R act normal) :
    Follows (Alike R) (liftM act : Attempt σ α).run (liftM normal : Attempt σ α').run :=
  h.bind fun _ _ ha => .pure (.ok ha)

theorem log_follows (level : LogLevel) (message : Text) (fields : LogFields) :
    Follows (Alike Eq) (log level message fields : Attempt σ Unit).run
      (log level message fields : Attempt σ Unit).run :=
  follows_lift (Action.log_follows level message fields)

theorem during_eq (act : Attempt σ α) (context : Text) :
    (act.during context).run =
      act.run >>= fun r : Except Failure α => pure (r.mapError (Failure.during context)) := by
  funext w
  have hseq : (act.run >>= fun r : Except Failure α => pure (r.mapError (Failure.during context))) w =
      ((act.run w).1.mapError (Failure.during context), (act.run w).2) := rfl
  rw [hseq, during_run]
  generalize act.run w = r
  obtain ⟨f | a, w'⟩ := r <;> rfl

theorem follows_during (h : Follows (Alike R) act.run normal.run) (context : Text) :
    Follows (Alike R) (act.during context).run (normal.during context).run := by
  rw [during_eq, during_eq]
  refine h.bind ?_
  rintro r r' (⟨ha⟩ | f)
  · exact .pure (.ok ha)
  · exact .pure (.error _)

end Attempt

/-! ### Calls -/

/-- A query that takes notice when the work is called off: it fails when that has happened before,
and otherwise it gives its normal result or fails. -/
structure Attempt.Heeds (act normal : Attempt σ α) : Prop where
  follows : Follows (Alike Eq) act.run normal.run
  refuses : ∀ w, w.canceled = true → ∃ f, (act.run w).1 = .error f
  normally : ∀ w, w.canceled = false →
    (∃ f, (act.run w).1 = .error f) ∨ (act.run w).1 = (normal.run w).1

namespace Attempt

variable {act normal : Attempt σ α}

theorem Heeds.during (h : act.Heeds normal) (context : Text) :
    (act.during context).Heeds (normal.during context) := by
  have hrun : ∀ (act : Attempt σ α) w, ((act.during context).run w).1 =
      (act.run w).1.mapError (Failure.during context) := by
    intro act w
    rw [during_eq]
    rfl
  refine ⟨follows_during h.follows context, fun w hw => ?_, fun w hw => ?_⟩ <;> rw [hrun]
  · obtain ⟨f, hf⟩ := h.refuses w hw
    exact ⟨_, by rw [hf]; rfl⟩
  · rw [hrun]
    obtain ⟨f, hf⟩ | heq := h.normally w hw
    · exact .inl ⟨_, by rw [hf]; rfl⟩
    · exact .inr (by rw [heq])

/-- Working on what a query gave. -/
theorem Heeds.map (h : act.Heeds normal) (g : α → β) :
    (act >>= fun a => pure (g a)).Heeds (normal >>= fun a => pure (g a)) := by
  have hrun : ∀ (act : Attempt σ α) w, ((act >>= fun a => pure (g a)).run w).1 =
      (act.run w).1.map g := by
    intro act w
    rw [run_bind]
    generalize act.run w = r
    obtain ⟨f | a, w'⟩ := r <;> rfl
  refine ⟨follows_bind h.follows fun a a' ha => follows_pure (congrArg g ha), fun w hw => ?_,
    fun w hw => ?_⟩ <;> rw [hrun]
  · obtain ⟨f, hf⟩ := h.refuses w hw
    exact ⟨f, by rw [hf]; rfl⟩
  · rw [hrun]
    obtain ⟨f, hf⟩ | heq := h.normally w hw
    · exact .inl ⟨f, by rw [hf]; rfl⟩
    · exact .inr (by rw [heq])

/-- When the work is called off before a query that takes notice, what came before it does not
matter. -/
theorem follows_heeds {R : α → α' → Prop} {act : Attempt σ α} {normal : Attempt σ α'}
    {k : α → Attempt σ β} {k' : α' → Attempt σ β} (h : Follows (Alike R) act.run normal.run)
    (hk : ∀ a a', R a a' → (k a).Heeds (k' a')) (w : World σ) :
    (∃ f, ((act >>= k).run w).1 = .error f) ∨
      w.canceled = false ∧ ((act >>= k).run w).1 = ((normal >>= k').run w).1 := by
  rw [run_bind]
  have hrelated : ∃ r', Alike R (act.run w).1 r' := h.related w
  have hstays : w.canceled = true → (act.run w).2.canceled = true := h.stays w
  have hsame : w.canceled = false → (act.run w).2.canceled = false →
    Alike R (act.run w).1 (normal.run w).1 ∧ (act.run w).2 = (normal.run w).2 := h.same w
  generalize act.run w = r at hrelated hstays hsame ⊢
  obtain ⟨f | a, w₁⟩ := r
  · exact .inl ⟨f, rfl⟩
  obtain ⟨r', hr'⟩ := hrelated
  cases hr' with
  | @ok _ a' ha =>
    cases hw₁ : w₁.canceled with
    | true => exact .inl ((hk a a' ha).refuses w₁ hw₁)
    | false =>
      have hw : w.canceled = false := by
        cases hc : w.canceled with
        | false => rfl
        | true => exact absurd (hstays hc) (by simp [hw₁])
      obtain ⟨hresult, hworld⟩ := hsame hw hw₁
      rw [run_bind]
      generalize normal.run w = s at hresult hworld ⊢
      obtain ⟨b, w₂⟩ := s
      cases hresult with
      | ok hb =>
        subst hworld
        exact ((hk _ _ hb).normally w₁ hw₁).imp_right fun heq => ⟨hw, heq⟩

theorem Heeds.bind {k k' : α → Attempt σ β} (h : act.Heeds normal)
    (hk : ∀ a, (k a).Heeds (k' a)) : (act >>= k).Heeds (normal >>= k') := by
  have hrelated : ∀ a a', a = a' → (k a).Heeds (k' a') := by
    rintro a _ rfl
    exact hk a
  refine ⟨follows_bind h.follows fun a a' ha => (hrelated a a' ha).follows, fun w hw => ?_,
    fun w hw => ?_⟩
  · obtain ⟨f, hf⟩ := h.refuses w hw
    rw [run_bind]
    generalize act.run w = r at hf ⊢
    obtain ⟨r, w'⟩ := r
    cases hf
    exact ⟨f, rfl⟩
  · exact (follows_heeds h.follows hrelated w).imp_right And.right

end Attempt

/-- A repository that the work can be called off in, next to one where it never is.  Only the
counts of commits have to take notice. -/
structure Repository.Heeds (r normal : Repository σ) : Prop where
  head : Follows (Alike Eq) r.head.run normal.head.run
  resolve : ∀ date, Follows (Alike Eq) (r.resolve date).run (normal.resolve date).run
  commitsSince : ∀ since,
    Follows (Alike Eq) (r.commitsSince since).run (normal.commitsSince since).run
  commitsPerYear : r.commitsPerYear.Heeds normal.commitsPerYear
  commitsPerMonth : r.commitsPerMonth.Heeds normal.commitsPerMonth
  parent : ∀ hash, Follows (Alike Eq) (r.parent hash).run (normal.parent hash).run
  changedFiles : ∀ hash extensions, Follows (Alike Eq) (r.changedFiles hash extensions).run
    (normal.changedFiles hash extensions).run
  exportFull : ∀ hash dest, Follows (Alike Eq) (r.exportFull hash dest).run
    (normal.exportFull hash dest).run
  exportSparse : ∀ hash paths dest, Follows (Alike Eq) (r.exportSparse hash paths dest).run
    (normal.exportSparse hash paths dest).run

/-- An analyzer that the work can be called off in, next to one where it never is.  What it says of
a tree once the work is called off is left open. -/
structure Measurer.Follows (m normal : Measurer σ) : Prop where
  measureFull : ∀ dir,
    Action.Follows (Alike Eq) (m.measureFull dir).run (normal.measureFull dir).run
  measure : ∀ dir, Action.Follows Eq (m.measure dir) (normal.measure dir)

/-- A hook of displays that may call the work off, next to one that never does. -/
def DisplayHook.Follows (hook normal : DisplayHook σ) : Prop :=
  Option.Rel (fun tell tell' => ∀ event, Action.Follows Eq (tell event) (tell' event)) hook normal

namespace DisplayHook

variable {hook normal : DisplayHook σ}

theorem openOnce_follows (h : hook.Follows normal) (label : Text) (total : Option Nat) :
    Action.Follows Eq (hook.openOnce label total) (normal.openOnce label total) := by
  rcases h with ⟨htell⟩ | _
  · refine Action.Follows.then Action.get_follows fun w => .ite ?_ (.pure rfl)
    refine Action.Follows.then (Action.modify_follows ?_) fun _ => htell _
    exact fun _ => rfl
  · exact .of_keeps fun _ => rfl

theorem advance_follows (h : hook.Follows normal) (label : Text) (done total : Nat) :
    Action.Follows Eq (hook.advance label done total) (normal.advance label done total) := by
  have hopen := openOnce_follows h label (some total)
  rcases h with ⟨htell⟩ | _
  · exact hopen.then fun _ => htell _
  · exact .of_keeps fun _ => rfl

theorem finish_follows (h : hook.Follows normal) (label : Text) (failure : Option Failure) :
    Action.Follows Eq (hook.finish label failure) (normal.finish label failure) := by
  rcases h with ⟨htell⟩ | _
  · refine Action.Follows.then Action.get_follows fun w => .ite ?_ (.pure rfl)
    refine Action.Follows.then (Action.modify_follows ?_) fun _ => htell _
    exact fun _ => rfl
  · exact .of_keeps fun _ => rfl

end DisplayHook

/-! ### Snapshots -/

namespace SeriesPlan

variable (p : SeriesPlan σ) {r : Repository σ} {m : Measurer σ} {hook hook' : ProgressHook σ}

/-- The plan with another history and analyzer. -/
def onto (r : Repository σ) (m : Measurer σ) : SeriesPlan σ :=
  { p with repository := r, measurer := m }

theorem cached_follows (key : Text) :
    Follows Eq (p.cached key) ((p.onto r m).cached key) := by
  change Follows Eq (p.cached key) (p.cached key)
  refine .of_keeps fun w => ?_
  unfold cached
  cases p.cache <;> rfl

theorem store_follows (key : Text) (s : Snapshot) (fields : LogFields) :
    Follows Eq (p.store key s fields) ((p.onto r m).store key s fields) := by
  change Follows Eq (p.store key s fields) (p.store key s fields)
  unfold store
  cases p.cache with
  | none => exact .pure rfl
  | some cache =>
    refine Action.Follows.then (.of_keeps fun w => ?_) fun result => ?_
    · cases s.encode? <;> rfl
    · cases result with
      | ok _ => exact .pure rfl
      | error f => exact Action.log_follows _ _ _

variable (hr : p.repository.Heeds r) (hm : p.measurer.Follows m)
include hr hm

theorem measure_follows (label hash : Text) (fields : LogFields) :
    Follows Eq (p.measure label hash fields) ((p.onto r m).measure label hash fields) := by
  refine (Action.log_follows _ _ _).then fun _ => ?_
  refine (hr.exportFull hash p.workDir).bind ?_
  rintro _ _ (⟨rfl⟩ | f)
  · refine Action.get_follows.then fun w => .ite ?_ ?_
    · exact (Action.log_follows _ _ _).then fun _ => .pure rfl
    · refine (hm.measureFull _).bind ?_
      rintro _ _ (⟨rfl⟩ | f)
      · exact .pure rfl
      · exact (Action.log_follows _ _ _).then fun _ => .pure rfl
  · exact (Action.log_follows _ _ _).then fun _ => .pure rfl

theorem sample_follows (label hash : Text) :
    Follows Eq (p.sample label hash) ((p.onto r m).sample label hash) := by
  refine (p.cached_follows (r := r) (m := m) _).then fun found? => ?_
  cases found? with
  | some s => exact (Action.log_follows _ _ _).then fun _ => .pure rfl
  | none =>
    refine (p.measure_follows hr hm _ _ _).then fun measured? => ?_
    cases measured? with
    | some s => exact (p.store_follows _ _ _).then fun _ => .pure rfl
    | none => exact .pure rfl

theorem sampleAt_follows (date : Time) :
    Follows Eq (p.sampleAt date) ((p.onto r m).sampleAt date) := by
  refine (hr.resolve date).bind ?_
  rintro _ _ (⟨rfl⟩ | f)
  · exact p.sample_follows hr hm _ _
  · refine .ite ?_ ?_ <;> exact (Action.log_follows _ _ _).then fun _ => .pure rfl

theorem sampleHead_follows : Follows Eq p.sampleHead (p.onto r m).sampleHead := by
  refine hr.head.bind ?_
  rintro _ _ (⟨rfl⟩ | f)
  · exact p.sample_follows hr hm _ _
  · exact (Action.log_follows _ _ _).then fun _ => .pure rfl

variable (hhook : ∀ done total label, Follows Eq (hook done total label) (hook' done total label))
include hhook

theorem runDates_follows (total : Nat) (dates : List Time) :
    ∀ done taken, Follows Eq (p.runDates total hook done taken dates)
      ((p.onto r m).runDates total hook' done taken dates) := by
  induction dates with
  | nil => exact fun _ _ => .pure rfl
  | cons date rest ih =>
    intro done taken
    refine Action.isCanceled_follows.then fun canceled => .ite (.pure rfl) ?_
    refine (p.sampleAt_follows hr hm date).then fun sample? => ?_
    exact (hhook _ _ _).then fun _ => ih _ _

theorem runHead_follows (total : Nat) (taken : List Snapshot) :
    Follows Eq (p.runHead total hook taken) ((p.onto r m).runHead total hook' taken) := by
  refine .ite ((p.sampleHead_follows hr hm).then fun head? => ?_) (.then (.pure rfl) fun head? => ?_)
  all_goals
    refine (hhook _ _ _).then fun _ => ?_
    exact Action.isCanceled_follows.then fun canceled => .pure rfl

theorem run_follows : Follows Eq (p.run hook) ((p.onto r m).run hook') := by
  refine (Action.log_follows _ _ _).then fun _ => ?_
  refine (p.runDates_follows hr hm hhook _ _ _ _).then fun broken => ?_
  have hrest : ∀ result, Follows Eq
      (do Action.discard p.workDir p.fields "Failed to remove snapshot scratch directory"
          return result : Action σ (List Snapshot × Option Failure))
      (do Action.discard p.workDir p.fields "Failed to remove snapshot scratch directory"
          return result) :=
    fun result => (Action.discard_follows _ _ _).then fun _ => .pure rfl
  obtain ⟨taken, none | f⟩ := broken
  · exact (p.runHead_follows hr hm hhook _ _).then hrest
  · exact hrest _

end SeriesPlan

/-! ### Recent changes -/

namespace ScanPlan

variable (p : ScanPlan σ) {r : Repository σ} {m : Measurer σ} {hook hook' : ProgressHook σ}

/-- The plan with another history and analyzer. -/
def onto (r : Repository σ) (m : Measurer σ) : ScanPlan σ :=
  { p with repository := r, measurer := m }

/-- The calls of a scan that the work can be called off in, next to those of one where it never is. -/
structure Calls (r : Repository σ) (m : Measurer σ) : Prop where
  parent : ∀ hash, Follows (Alike Eq) (p.repository.parent hash).run (r.parent hash).run
  changedFiles : ∀ hash, Follows (Alike Eq) (p.repository.changedFiles hash p.extensions).run
    (r.changedFiles hash p.extensions).run
  exportSparse : ∀ hash paths dest, Follows (Alike Eq)
    (p.repository.exportSparse hash paths dest).run (r.exportSparse hash paths dest).run
  measure : ∀ dir, Follows Eq (p.measurer.measure dir) (m.measure dir)

theorem parent?_eq (hash : Text) :
    (p.parent? hash).run = (p.repository.parent hash).run >>= fun answer : Except Failure Text =>
      pure (match answer with
        | .ok parent => (Except.ok (some parent) : Except Failure (Option Text))
        | .error f => if f.isNoParent then .ok none else .error f) := by
  funext w
  refine (p.parent?_run hash w).trans (Eq.trans ?_ (run_seq (p.repository.parent hash).run _ w).symm)
  have hrun : StateT.run (p.repository.parent hash).run w = (p.repository.parent hash).run w := rfl
  rw [hrun]
  generalize (p.repository.parent hash).run w = answer
  obtain ⟨f | a, w'⟩ := answer <;> rfl

variable {p} (hcalls : p.Calls r m)
include hcalls

theorem measure_follows (dir hash : Text) :
    Follows Eq (p.measure dir hash) ((p.onto r m).measure dir hash) := by
  refine (hcalls.measure dir).then fun measured => ?_
  cases measured.failure? with
  | some f => exact (Action.log_follows _ _ _).then fun _ => .pure rfl
  | none => exact .pure rfl

theorem parent?_follows (hash : Text) :
    Follows (Alike Eq) (p.parent? hash).run ((p.onto r m).parent? hash).run := by
  rw [parent?_eq, parent?_eq]
  refine (hcalls.parent hash).bind ?_
  rintro _ _ (⟨rfl⟩ | f)
  · exact .pure (.ok rfl)
  · refine .pure ?_
    dsimp only
    split
    · exact .ok rfl
    · exact .error f

theorem compare_follows (parent hash : Text) (paths : List Text) :
    Follows (Alike Eq) (p.compare parent hash paths).run
      ((p.onto r m).compare parent hash paths).run := by
  refine Attempt.follows_bind (Attempt.follows_during (hcalls.exportSparse _ _ _) _) fun _ _ _ => ?_
  refine Attempt.follows_bind (Attempt.follows_during (hcalls.exportSparse _ _ _) _) fun _ _ _ => ?_
  refine Attempt.follows_bind (Attempt.follows_lift (measure_follows hcalls _ _)) fun _ _ hb => ?_
  refine Attempt.follows_bind (Attempt.follows_lift (measure_follows hcalls _ _)) fun _ _ ha => ?_
  rw [hb, ha]
  exact Attempt.follows_pure rfl

theorem delta_follows (hash : Text) :
    Follows (Alike Eq) (p.delta hash).run ((p.onto r m).delta hash).run := by
  refine Attempt.follows_bind (parent?_follows hcalls hash) ?_
  rintro (_ | parent) _ rfl
  · exact Attempt.follows_pure rfl
  refine Attempt.follows_bind (hcalls.changedFiles hash) ?_
  rintro paths _ rfl
  refine .ite (Attempt.follows_pure rfl) ?_
  refine Attempt.follows_bind (compare_follows hcalls parent hash paths) ?_
  rintro movement _ rfl
  exact Attempt.follows_pure rfl

variable (hhook : ∀ done total label, Follows Eq (hook done total label) (hook' done total label))
include hhook

theorem scanFrom_follows (target total : Nat) (commits : List Commit) :
    ∀ done found, Follows Eq (p.scanFrom target total hook done found commits)
      ((p.onto r m).scanFrom target total hook' done found commits) := by
  induction commits with
  | nil => exact fun _ _ => .pure rfl
  | cons commit rest ih =>
    intro done found
    refine .ite (.pure rfl) ?_
    refine Action.isCanceled_follows.then fun canceled => .ite (.pure rfl) ?_
    refine (delta_follows hcalls commit.hash).bind ?_
    rintro outcome _ (⟨rfl⟩ | f)
    · exact (hhook _ _ _).then fun _ => ih _ _
    · exact (hhook _ _ _).then fun _ => (Action.log_follows _ _ _).then fun _ => ih _ _

theorem scan_follows (target : Int) (commits : List Commit) :
    Follows Eq (p.scan target hook commits) ((p.onto r m).scan target hook' commits) := by
  rcases target with target | below
  · rw [Int.ofNat_eq_natCast, scan_natCast, scan_natCast]
    refine (scanFrom_follows hcalls hhook target _ commits 0 []).then fun result => ?_
    exact (Action.discard_follows _ _ _).then fun _ => .pure rfl
  · rw [scan_negative p (Int.negSucc_lt_zero below), scan_negative _ (Int.negSucc_lt_zero below)]
    exact (Action.discard_follows _ _ _).then fun _ => .pure rfl

omit hcalls hhook in
/-- A scan makes some of the calls of a history and an analyzer. -/
theorem calls_of_heeds (p : ScanPlan σ) (hr : p.repository.Heeds r) (hm : p.measurer.Follows m) :
    p.Calls r m where
  parent := hr.parent
  changedFiles hash := hr.changedFiles hash p.extensions
  exportSparse := hr.exportSparse
  measure := hm.measure

end ScanPlan

/-! ### Reports -/

namespace Collection

/-- A collection that can be called off, next to one that never is.  They only differ in their
calls. -/
structure Heeds (c normal : Collection σ) : Prop where
  config : c.config = normal.config
  cache : c.cache = normal.cache
  now : c.now = normal.now
  runId : c.runId = normal.runId
  displays : c.displays.Follows normal.displays
  openMeasurer : ∀ f, Follows (Alike Measurer.Follows) (c.openMeasurer f).run
    (normal.openMeasurer f).run
  openRepository : ∀ f, Follows (Alike Repository.Heeds) (c.openRepository f).run
    (normal.openRepository f).run

variable {c normal : Collection σ} {r r' : Repository σ} {m m' : Measurer σ}

theorem Heeds.fields (h : c.Heeds normal) (f : Framework) : normal.fields f = c.fields f := by
  unfold Collection.fields
  rw [h.runId]

theorem prepare_follows (h : c.Heeds normal) (f : Framework) :
    Follows (Alike Repository.Heeds) (c.prepare f).run (normal.prepare f).run := by
  have hopen := DisplayHook.openOnce_follows h.displays (f.name ++ " mirror") none
  have hfinish := DisplayHook.finish_follows h.displays (f.name ++ " mirror")
  unfold prepare
  rw [h.fields, ← h.config]
  refine Attempt.follows_bind (Attempt.log_follows _ _ _) fun _ _ _ => ?_
  refine Attempt.follows_bind (Attempt.follows_lift hopen) fun _ _ _ => ?_
  refine Attempt.follows_bind (Attempt.follows_lift (h.openRepository f)) ?_
  rintro _ _ (⟨hr⟩ | e)
  · refine Attempt.follows_bind (Attempt.follows_lift (hfinish none)) fun _ _ _ => ?_
    exact Attempt.follows_pure hr
  · refine Attempt.follows_bind (Attempt.follows_lift (hfinish (some e))) fun _ _ _ => ?_
    exact Attempt.follows_throw _

theorem settle_follows (h : c.Heeds normal) (label : Text) (result : α × Option Failure) :
    Follows (Alike Eq) (c.settle label result).run (normal.settle label result).run := by
  refine Attempt.follows_bind
    (Attempt.follows_lift (DisplayHook.finish_follows h.displays label result.2)) fun _ _ _ => ?_
  cases result.2 with
  | none => exact Attempt.follows_pure rfl
  | some f => exact Attempt.follows_throw f

theorem cacheFor_follows (h : c.Heeds normal) (f : Framework) :
    Follows Eq (c.cacheFor f) (normal.cacheFor f) := by
  unfold cacheFor
  rw [← h.cache, ← h.config, h.fields]
  cases c.cache with
  | none => exact .pure rfl
  | some cache =>
    refine .ite (.pure rfl) ((Action.onFiles_follows _).then fun result => ?_)
    cases result with
    | ok fingerprint => exact .pure rfl
    | error e => exact (Action.log_follows _ _ _).then fun _ => .pure rfl

theorem snapshots_follows (h : c.Heeds normal) (hr : r.Heeds r') (hm : m.Follows m')
    (f : Framework) (anchor : Time) :
    Follows (Alike Eq) (c.snapshots f r m anchor).run (normal.snapshots f r' m' anchor).run := by
  have hadvance := DisplayHook.advance_follows h.displays (f.name ++ " snapshots")
  unfold snapshots
  rw [h.fields, ← h.config, ← h.now]
  refine Attempt.follows_bind (Attempt.follows_lift (cacheFor_follows h f)) ?_
  rintro cache _ rfl
  refine Attempt.follows_bind (Attempt.follows_lift
    (SeriesPlan.run_follows _ hr hm fun done total _ => hadvance done total)) ?_
  rintro result _ rfl
  refine Attempt.follows_bind (settle_follows h _ _) ?_
  rintro taken _ rfl
  refine Attempt.follows_bind (Attempt.log_follows _ _ _) fun _ _ _ => ?_
  exact Attempt.follows_pure rfl

theorem recentChanges_follows (h : c.Heeds normal) (hr : r.Heeds r') (hm : m.Follows m')
    (f : Framework) :
    Follows (Alike Eq) (c.recentChanges f r m).run (normal.recentChanges f r' m').run := by
  have hadvance := DisplayHook.advance_follows h.displays (f.name ++ " commits")
  unfold recentChanges
  rw [h.fields, ← h.config, ← h.now]
  refine Attempt.follows_bind (Attempt.follows_during (hr.commitsSince _) _) ?_
  rintro recent _ rfl
  refine Attempt.follows_bind (Attempt.log_follows _ _ _) fun _ _ _ => ?_
  refine Attempt.follows_bind (Attempt.follows_lift
    (ScanPlan.scan_follows (ScanPlan.calls_of_heeds _ hr hm) (fun done total _ => hadvance done total)
      _ recent)) ?_
  rintro result _ rfl
  refine Attempt.follows_bind (settle_follows h _ _) ?_
  rintro found _ rfl
  refine Attempt.follows_bind (Attempt.log_follows _ _ _) fun _ _ _ => ?_
  exact Attempt.follows_pure rfl

/-- What a run does before it counts commits. -/
def measured (c : Collection σ) (f : Framework) :
    Attempt σ (Repository σ × List Snapshot × List CommitDelta) := do
  let anchor ← anchor f
  let measurer ← Attempt.during ("analyzer for " ++ f.id) (c.openMeasurer f)
  let repository ← c.prepare f
  let snapshots ← c.snapshots f repository measurer anchor
  let commits ← c.recentChanges f repository measurer
  return (repository, snapshots, commits)

theorem measured_follows (h : c.Heeds normal) (f : Framework) :
    Follows (Alike fun a b => a.1.Heeds b.1 ∧ a.2 = b.2) (c.measured f).run
      (normal.measured f).run := by
  unfold measured
  have hanchor : Follows (Alike Eq) (anchor f : Attempt σ Time).run (anchor f).run := by
    unfold anchor
    cases f.start? with
    | some t => exact Attempt.follows_pure rfl
    | none => exact Attempt.follows_throw _
  refine Attempt.follows_bind hanchor ?_
  rintro anchor _ rfl
  refine Attempt.follows_bind (Attempt.follows_during (h.openMeasurer f) _) fun m m' hm => ?_
  refine Attempt.follows_bind (prepare_follows h f) fun r r' hr => ?_
  refine Attempt.follows_bind (snapshots_follows h hr hm f anchor) ?_
  rintro snapshots _ rfl
  refine Attempt.follows_bind (recentChanges_follows h hr hm f) ?_
  rintro commits _ rfl
  exact Attempt.follows_pure ⟨hr, rfl⟩

/-- What a run does after everything is measured. -/
def counted (c : Collection σ) (f : Framework)
    (done : Repository σ × List Snapshot × List CommitDelta) : Attempt σ Report := do
  let perYear ← Attempt.during "count commits per year" done.1.commitsPerYear
  let perMonth ← Attempt.during "count commits per month" done.1.commitsPerMonth
  return {
    framework := f.id, generated := c.now, commitsMonthly := perMonth, snapshots := done.2.1
    commits := done.2.2, commitsPerYear := perYear }

theorem run_eq (c : Collection σ) (f : Framework) :
    c.run f = c.measured f >>= c.counted f := by
  simp only [run, measured, counted, bind_assoc, pure_bind]

theorem counted_heeds (h : c.Heeds normal) (f : Framework)
    {done done' : Repository σ × List Snapshot × List CommitDelta}
    (hdone : done.1.Heeds done'.1 ∧ done.2 = done'.2) :
    (c.counted f done).Heeds (normal.counted f done') := by
  obtain ⟨hr, hsame⟩ := hdone
  unfold counted
  rw [← h.now, ← hsame]
  exact (hr.commitsPerYear.during _).bind fun perYear => (hr.commitsPerMonth.during _).map _

/-- **A run that is called off fails, or gives the report of the run that is never called off.** -/
theorem run_canceled (h : c.Heeds normal) (f : Framework) (w : World σ) :
    (∃ e, ((c.run f).run w).1 = .error e) ∨
      ∃ report, ((c.run f).run w).1 = .ok report ∧
        ((normal.run f).run { w with canceled := false }).1 = .ok report := by
  rw [run_eq, run_eq]
  obtain hfails | ⟨hw, hsame⟩ := Attempt.follows_heeds (measured_follows h f)
    (fun _ _ hdone => counted_heeds h f hdone) w
  · exact .inl hfails
  · have hstart : { w with canceled := false } = w := by rw [← hw]
    rw [hstart, ← hsame]
    cases hr : ((c.measured f >>= c.counted f).run w).1 with
    | error e => exact .inl ⟨e, rfl⟩
    | ok report => exact .inr ⟨report, rfl, rfl⟩

/-! A collection that is called off after a number of calls. -/

/-- A call with the answer `a` that can be made while the work goes on.  The state outside counts
down, and at zero the work is called off during the call. -/
def countdown (a : α) : Attempt Nat α := fun w =>
  if w.canceled then (.error .canceled, w)
  else
    match w.outside with
    | 0 => (.ok a, { w with canceled := true })
    | n + 1 => (.ok a, { w with outside := n })

/-- The call when the work is never called off. -/
def endless (a : α) : Attempt Nat α := fun w => (.ok a, { w with outside := w.outside - 1 })

theorem countdown_follows {R : α → α' → Prop} {a : α} {a' : α'} (h : R a a') :
    Follows (Alike R) (countdown a).run (endless a').run := by
  have hrun : ∀ w, (countdown a).run.run w =
      if w.canceled then (.error .canceled, w)
      else
        match w.outside with
        | 0 => (.ok a, { w with canceled := true })
        | n + 1 => (.ok a, { w with outside := n }) := fun _ => rfl
  refine ⟨fun w => ?_, fun w hw => ?_, fun w hw hend => ?_⟩
  · rw [hrun]
    split
    · exact ⟨_, .error _⟩
    · split <;> exact ⟨_, .ok h⟩
  · rw [hrun, if_pos hw]
    exact hw
  · rw [hrun, if_neg (by simp [hw])] at hend ⊢
    cases houtside : w.outside with
    | zero => simp [houtside] at hend
    | succ n =>
      refine ⟨.ok h, ?_⟩
      change _ = { w with outside := w.outside - 1 }
      rw [houtside]
      rfl

theorem countdown_heeds (a : α) : (countdown a).Heeds (endless a) := by
  refine ⟨countdown_follows rfl, fun w hw => ⟨.canceled, ?_⟩, fun w hw => .inr ?_⟩
  · have hrun : (countdown a).run w = (.error .canceled, w) := if_pos hw
    rw [hrun]
  · obtain ⟨_, _, _, _, _ | n⟩ := w <;> cases hw <;> rfl

/-- A history of two commits, asked through `ask`. -/
def smallHistory (ask : ∀ {α : Type}, α → Attempt Nat α) : Repository Nat where
  head := ask (Text.ofString "b1")
  resolve _ := ask (Text.ofString "a0")
  commitsSince _ := ask []
  commitsPerYear := ask [⟨2024, 2⟩]
  commitsPerMonth := ask []
  parent _ := ask (Text.ofString "a0")
  changedFiles _ _ := ask [Text.ofString "f.php"]
  exportFull _ _ := ask ()
  exportSparse _ _ _ := ask 1

/-- An analyzer that finds the same in every tree, asked through `ask`. -/
def smallAnalyzer (ask : ∀ {α : Type}, α → Attempt Nat α) : Measurer Nat where
  measureFull _ := ask
    { production := ⟨0, 0, 0, 0, "{}"⟩, testLoc := 0, surfaceArea := [], surfaceAreaLists := [],
      antipatterns := [], hotspots := [] }
  measure _ := do
    match ← (ask (Measurement.measured { loc := 1 })).run with
    | .ok measured => return measured
    | .error f => return .unavailable f

/-- A collection that asks a small history and analyzer through `ask`. -/
def smallCollection (ask : ∀ {α : Type}, α → Attempt Nat α) : Collection Nat where
  config := Config.default
  openMeasurer _ := ask (smallAnalyzer ask)
  openRepository _ := ask (smallHistory ask)
  now := Time.midnight 0 ⟨2024, 2, 15⟩
  runId := "run"

theorem smallCollection_heeds : (smallCollection countdown).Heeds (smallCollection endless) where
  config := rfl
  cache := rfl
  now := rfl
  runId := rfl
  displays := .none
  openMeasurer _ := by
    refine countdown_follows ⟨fun _ => countdown_follows rfl, fun _ => ?_⟩
    refine (countdown_follows (a := Measurement.measured { loc := 1 }) rfl).bind ?_
    rintro _ _ (⟨rfl⟩ | f) <;> exact .pure rfl
  openRepository _ := countdown_follows
    { head := countdown_follows rfl
      resolve := fun _ => countdown_follows rfl
      commitsSince := fun _ => countdown_follows rfl
      commitsPerYear := countdown_heeds _
      commitsPerMonth := countdown_heeds _
      parent := fun _ => countdown_follows rfl
      changedFiles := fun _ _ => countdown_follows rfl
      exportFull := fun _ _ => countdown_follows rfl
      exportSparse := fun _ _ _ => countdown_follows rfl }

def smallFramework : Framework :=
  { id := Text.ofString "small", name := "small", startDate := "2024-01-01" }

/-- The scratch directory is there, and `calls` calls are made before the work is called off. -/
def smallWorld (calls : Nat) : World Nat where
  files := { nodes :=
    [(["output"], .dir), (["output", "small"], .dir), (["output", "small", "work"], .dir)] }
  outside := calls

/-- What the small collection gives when it is called off after a number of calls. -/
def smallRun (calls : Nat) : Except Failure Report :=
  (((smallCollection countdown).run smallFramework).run (smallWorld calls)).1

theorem smallRun_fifth : (smallRun 4).toOption.isSome = false := by cbv

theorem smallRun_last : (smallRun 10).toOption.map (fun r => r.snapshots.map Snapshot.date) =
    some [Text.ofString "2024-01", Text.ofString "2024-02"] := by cbv

/-- Called off during the fifth call, the run fails; called off during the last one, it gives the
report of January and February. -/
theorem run_canceled_countdown :
    (∃ e, smallRun 4 = .error e) ∧
      ∃ report, smallRun 10 = .ok report ∧
        (((smallCollection endless).run smallFramework).run
          { smallWorld 10 with canceled := false }).1 = .ok report ∧
        report.snapshots.map Snapshot.date =
          [Text.ofString "2024-01", Text.ofString "2024-02"] := by
  constructor
  · obtain h | ⟨report, h, -⟩ := run_canceled smallCollection_heeds smallFramework (smallWorld 4)
    · exact h
    · have hfifth := smallRun_fifth
      rw [smallRun, h] at hfifth
      cases hfifth
  · have hlast := smallRun_last
    obtain ⟨e, h⟩ | ⟨report, h, hnormal⟩ :=
      run_canceled smallCollection_heeds smallFramework (smallWorld 10) <;> rw [smallRun, h] at hlast
    · cases hlast
    · exact ⟨report, h, hnormal, Option.some.inj hlast⟩

end Collection

end MetricHistory
