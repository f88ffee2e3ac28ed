import MetricHistory.World

/-!
# Running actions

Actions that change a state and may fail, run on a given state: a sequence goes on from the state
the first action leaves, and stops at a failure.

`Action.Leads P act Q` says what an action does in a world: from every world with `P` it leads to a
result and a world with `Q`.  Actions in a row are put together by `Action.Leads.bind`.
-/

namespace MetricHistory

variable {ε σ α β : Type}

/-- A sequence of actions stops at the first failure. -/
theorem run_bind (act : ExceptT ε (StateM σ) α) (k : α → ExceptT ε (StateM σ) β) (s : σ) :
    (act >>= k).run s =
      match act.run s with
      | (.ok a, s) => (k a).run s
      | (.error e, s) => (.error e, s) := by
  have hrun : (act >>= k).run s = ExceptT.bindCont k (act.run s).1 (act.run s).2 := rfl
  rw [hrun]
  generalize act.run s = r
  obtain ⟨a | e, s'⟩ := r <;> rfl

theorem run_bind_ok {act : ExceptT ε (StateM σ) α} {k : α → ExceptT ε (StateM σ) β} {s s' : σ}
    {a : α} (h : act.run s = (.ok a, s')) : (act >>= k).run s = (k a).run s' := by
  rw [run_bind, h]

theorem run_seq (act : StateM σ α) (k : α → StateM σ β) (s : σ) :
    (act >>= k).run s = (k (act.run s).1).run (act.run s).2 := rfl

/-- A handler goes on from the state that the failure has left. -/
theorem tryCatch_run (act : ExceptT ε (StateM σ) α) (handle : ε → ExceptT ε (StateM σ) α) (s : σ) :
    (tryCatch act handle).run s =
      match act.run s with
      | (.ok a, s) => (.ok a, s)
      | (.error e, s) => (handle e).run s := by
  have hrun : (tryCatch act handle).run s = StateT.run (ExceptT.tryCatch act handle).run s := rfl
  have hact : act.run s = StateT.run act s := rfl
  rw [hrun, ExceptT.tryCatch, ExceptT.run_mk, run_seq, hact]
  generalize StateT.run act s = r
  obtain ⟨a | e, s'⟩ := r <;> rfl

theorem run_get_bind (k : σ → ExceptT ε (StateM σ) α) (s : σ) :
    (get >>= k).run s = (k s).run s := rfl

namespace Attempt

theorem during_run (act : Attempt σ α) (context : Text) (w : World σ) :
    (act.during context).run w =
      match act.run w with
      | (.ok a, w) => (.ok a, w)
      | (.error f, w) => (.error (.during context f), w) := rfl

theorem onFiles_run (act : Files α) (w : World σ) :
    (onFiles act : Attempt σ α).run w =
      match act.run w.files with
      | (.ok a, files) => (.ok a, { w with files })
      | (.error e, files) => (.error (.file e), { w with files }) := rfl

end Attempt

namespace Action

variable {P : World σ → Prop} {act : Action σ α} {k : α → Action σ β}

/-- From every world with `P` the action leads to a result and a world with `Q`. -/
def Leads (P : World σ → Prop) (act : Action σ α) (Q : α → World σ → Prop) : Prop :=
  ∀ w, P w → Q (act.run w).1 (act.run w).2

theorem Leads.pure {Q : α → World σ → Prop} {a : α} (h : ∀ w, P w → Q a w) :
    Leads P (Pure.pure a : Action σ α) Q := h

theorem Leads.bind {Q : α → World σ → Prop} {R : β → World σ → Prop} (h : Leads P act Q)
    (hk : ∀ a, Leads (Q a) (k a) R) : Leads P (act >>= k) R :=
  fun w hw => hk _ _ (h w hw)

theorem Leads.weaken {Q Q' : α → World σ → Prop} (h : Leads P act Q)
    (hQ : ∀ a w, Q a w → Q' a w) : Leads P act Q' :=
  fun w hw => hQ _ _ (h w hw)

theorem Leads.start {P' : World σ → Prop} {Q : α → World σ → Prop} (h : Leads P act Q)
    (hP : ∀ w, P' w → P w) : Leads P' act Q :=
  fun w hw => h w (hP w hw)

theorem Leads.of_attempt {act : Attempt σ α} {Q : Except Failure α → World σ → Prop}
    (h : ∀ w, P w → Q (act.run w).1 (act.run w).2) : Leads P act.run Q := h

/-- Attempts in a row: the second one is only made when the first one has not failed. -/
theorem Leads.attempt_bind {act : Attempt σ α} {k : α → Attempt σ β} {M : α → World σ → Prop}
    {Q : Except Failure β → World σ → Prop}
    (h : Leads P act.run fun r w =>
      match r with
      | .ok a => M a w
      | .error f => Q (.error f) w)
    (hk : ∀ a, Leads (M a) (k a).run Q) : Leads P (act >>= k).run Q := by
  refine .of_attempt fun w hw => ?_
  have hfirst : match (act.run w).1 with
    | .ok a => M a (act.run w).2
    | .error f => Q (.error f) (act.run w).2 := h w hw
  rw [run_bind]
  generalize act.run w = r at hfirst ⊢
  obtain ⟨f | a, w'⟩ := r
  · exact hfirst
  · exact hk a w' hfirst

theorem Leads.lift {Q : Except Failure α → World σ → Prop} (h : Leads P act fun a => Q (.ok a)) :
    Leads P (liftM act : Attempt σ α).run Q := h

/-- Saying what was being done changes the failure only. -/
theorem Leads.during {act : Attempt σ α} {context : Text} {Q : Option α → World σ → Prop}
    (h : Leads P act.run fun r => Q r.toOption) :
    Leads P (act.during context).run fun r => Q r.toOption := by
  refine .of_attempt fun w hw => ?_
  have hact : Q (act.run w).1.toOption (act.run w).2 := h w hw
  rw [Attempt.during_run]
  generalize act.run w = r at hact ⊢
  obtain ⟨f | a, w'⟩ := r <;> exact hact

/-- Writing to the log changes nothing that does not depend on the log. -/
theorem log_leads (hlog : ∀ w l, P w → P { w with log := l }) (level : LogLevel) (message : Text)
    (fields : LogFields) : Leads P (Action.log level message fields) fun _ => P :=
  fun w hw => hlog w _ hw

theorem isCanceled_leads : Leads P (Action.isCanceled : Action σ Bool) fun b w =>
    P w ∧ b = w.canceled :=
  fun _ hw => ⟨hw, rfl⟩

/-- Discarding a scratch directory removes it and may be logged. -/
theorem discard_run (dir : Text) (fields : LogFields) (warning : Text) (w : World σ) :
    ∃ log, ((discard dir fields warning).run w).2 =
      { w with files := ((Files.removeAll dir).run w.files).2, log } := by
  rw [discard, run_seq]
  split
  · exact ⟨w.log, rfl⟩
  · exact ⟨_, rfl⟩

end Action

namespace Attempt

variable {w : World σ} {fs : FileSystem} {a : α}

theorem onFiles_run_ok {act : Files α} (h : act.run w.files = (.ok a, fs)) :
    (onFiles act : Attempt σ α).run w = (.ok a, { w with files := fs }) := by
  rw [onFiles_run, h]

theorem ofTask_run_ok {task : FileTask α} (h : task.run w.files = (.ok a, fs)) :
    (ofTask task : Attempt σ α).run w = (.ok a, { w with files := fs }) := by
  have hrun : (ofTask task : Attempt σ α).run w =
      ((task.run w.files).1, { w with files := (task.run w.files).2 }) := rfl
  rw [hrun, h]

theorem checkpoint_run (h : w.canceled = false) :
    (checkpoint : Attempt σ Unit).run w = (.ok (), w) := by
  rw [checkpoint, run_get_bind, h]
  rfl

theorem during_run_ok {act : Attempt σ α} {w' : World σ} (h : act.run w = (.ok a, w'))
    (context : Text) : (act.during context).run w = (.ok a, w') := by
  rw [during_run, h]

theorem lift_run (act : Action σ α) (w : World σ) :
    (liftM act : Attempt σ α).run w = (.ok (act.run w).1, (act.run w).2) := rfl

end Attempt

namespace FileTask

theorem ofFiles_run (act : Files α) (fs : FileSystem) :
    (ofFiles act).run fs =
      match act.run fs with
      | (.ok a, fs) => (.ok a, fs)
      | (.error e, fs) => (.error (.file e), fs) := rfl

theorem during_run (context : Text) (task : FileTask α) (fs : FileSystem) :
    (during context task).run fs =
      match task.run fs with
      | (.ok a, fs) => (.ok a, fs)
      | (.error f, fs) => (.error (.during context f), fs) := rfl

end FileTask

end MetricHistory
