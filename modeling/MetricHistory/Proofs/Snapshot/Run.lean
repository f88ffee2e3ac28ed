import Mathlib.Data.List.Forall2
import MetricHistory.Proofs.Action
import MetricHistory.Snapshot.Series

/-!
# How a series is made

What a run of a `SeriesPlan` does is put together from what its steps do.  There is one rule for
each step: what holds of its world before and after, and of the snapshot it gives.

* `SeriesPlan.measure_leads`, `SeriesPlan.sample_leads`, `SeriesPlan.sampleAt_leads` and
  `SeriesPlan.sampleHead_leads` are the rules of one sample;
* `SeriesPlan.runDates_leads` : if every sample keeps `I` and gives a snapshot with `R`, then the
  dates that were gone through have been sampled in order, each with `R`, and `I` holds;
* `SeriesPlan.run_run` : a run is its scheduled part, the present, and the removal of the scratch
  directory.
-/

namespace MetricHistory

namespace SeriesPlan

open MetricHistory.Action (Leads)

variable {σ : Type} (p : SeriesPlan σ) {I E : World σ → Prop} {R : Option Snapshot → Prop}
  {label hash : Text} {fields : LogFields}

/-- The fields that are logged with a sample. -/
def sampleFields (label hash : Text) : LogFields :=
  p.fields ++ [(Text.ofString "period", .text label),
    (Text.ofString "commit", .text (shortHash Snapshot.hashLength hash))]

/-- The directory that is measured. -/
def measuredDir : Text := Path.join [p.workDir, p.subdir]

/-! ### One sample -/

/-- `E` is what a successful export brings about. -/
theorem measure_leads (hlog : ∀ w l, I w → I { w with log := l })
    (hexport : Leads I (p.repository.exportFull hash p.workDir).run fun r w =>
      match r with
      | .ok _ => E w
      | .error _ => I w ∧ R none)
    (hmissing : ∀ w, E w → w.files.isDir p.measuredDir = false → I w ∧ R none)
    (hmeasure : Leads (fun w => E w ∧ w.files.isDir p.measuredDir = true)
      (p.measurer.measureFull p.measuredDir).run fun r w =>
        I w ∧ match r with
          | .ok d => R (some (Snapshot.ofDocument label hash d))
          | .error _ => R none) :
    Leads I (p.measure label hash fields) fun s w => I w ∧ R s := by
  refine (Action.log_leads hlog _ _ _).bind fun _ => hexport.bind fun r => ?_
  rcases r with f | u
  · exact fun w hw => ⟨hlog w _ hw.1, hw.2⟩
  refine Leads.bind (Q := fun v w => v = w ∧ E w) (fun w hw => ⟨rfl, hw⟩) fun v => ?_
  rintro w ⟨rfl, hw⟩
  split
  · rename_i hdir
    obtain ⟨hI, hR⟩ := hmissing v hw (by simpa [measuredDir] using hdir)
    exact ⟨hlog v _ hI, hR⟩
  rename_i hdir
  refine hmeasure.bind (R := fun s w => I w ∧ R s) (fun r => ?_) v
    ⟨hw, by simpa [measuredDir] using hdir⟩
  rcases r with f | d
  · exact fun w hw => ⟨hlog w _ hw.1, hw.2⟩
  · exact fun w hw => hw

/-- `M` is what is known of a new measurement, and `R` of every sample. -/
theorem sample_leads {M : Option Snapshot → Prop} (hlog : ∀ w l, I w → I { w with log := l })
    (hcached : Leads I (p.cached (p.cacheKey hash)) fun found w =>
      I w ∧ ∀ s, found = some s →
        R (some { s with date := label, commit := shortHash Snapshot.hashLength hash }))
    (hmeasure : Leads I (p.measure label hash (p.sampleFields label hash)) fun s w => I w ∧ M s)
    (hstore : ∀ s, M (some s) →
      Leads I (p.store (p.cacheKey hash) s (p.sampleFields label hash)) fun _ => I)
    (hM : ∀ s, M s → R s) :
    Leads I (p.sample label hash) fun s w => I w ∧ R s := by
  refine hcached.bind fun found => ?_
  rcases found with _ | s
  · refine Leads.bind (Q := fun s w => I w ∧ M s) (fun w hw => hmeasure w hw.1) fun measured? => ?_
    rcases measured? with _ | s
    · exact fun w hw => ⟨hw.1, hM _ hw.2⟩
    · exact fun w hw => ⟨hstore s hw.2 w hw.1, hM _ hw.2⟩
  · exact fun w hw => ⟨hlog w _ hw.1, hw.2 s rfl⟩

/-- Without a cache a sample is a measurement. -/
theorem sample_run_of_none (h : p.cache = none) (w : World σ) :
    (p.sample label hash).run w = (p.measure label hash (p.sampleFields label hash)).run w := by
  have hcached : (p.cached (p.cacheKey hash)).run w = (none, w) := by
    rw [cached, h]
    rfl
  rw [sample, run_seq, hcached]
  simp only
  rw [run_seq, ← sampleFields]
  rcases (p.measure label hash (p.sampleFields label hash)).run w with ⟨_ | s, w'⟩
  · rfl
  · simp only [store, h]
    rfl

/-- A commit is measured, and its measurement is kept. -/
def sampleAnew (label hash : Text) : Action σ (Option Snapshot) := do
  let measured? ← p.measure label hash (p.sampleFields label hash)
  match measured? with
  | some s => p.store (p.cacheKey hash) s (p.sampleFields label hash)
  | none => pure ()
  return measured?

theorem sample_run_of_missed {w : World σ} (h : (p.cached (p.cacheKey hash)).run w = (none, w)) :
    (p.sample label hash).run w = (p.sampleAnew label hash).run w := by
  rw [sample, run_seq, h]
  rfl

section Cached

variable {c : Cache} {fingerprint : Text}

theorem cached_run (h : p.cache = some (c, fingerprint)) (key : Text) (w : World σ) :
    (p.cached key).run w =
      let (found, files) := (c.get key fingerprint).run w.files
      (found.bind Snapshot.parse?, { w with files }) := by
  rw [cached, h]
  rfl

theorem store_leads (h : p.cache = some (c, fingerprint)) {key : Text} {s : Snapshot}
    (hlog : ∀ w l, I w → I { w with log := l })
    (hset : ∀ data, s.encode? = some data → ∀ w, I w →
      I { w with files := ((c.set key fingerprint data).run w.files).2 }) :
    Leads I (p.store key s fields) fun _ => I := by
  rw [store, h]
  refine Leads.bind (Q := fun _ => I) (fun w hw => ?_) fun result => ?_
  · rcases hdata : s.encode? with _ | data
    · exact hw
    · exact hset data hdata w hw
  · rcases result with f | _
    · exact Action.log_leads hlog _ _ _
    · exact fun w hw => hw

end Cached

/-- `A` is what is known of the answer of the repository. -/
theorem sampleAt_leads {date : Time} {A : Except Failure Text → Prop}
    (hlog : ∀ w l, I w → I { w with log := l })
    (hresolve : Leads I (p.repository.resolve date).run fun r w => I w ∧ A r)
    (hsample : ∀ hash, A (.ok hash) →
      Leads I (p.sample (Snapshot.label date) hash) fun s w => I w ∧ R s)
    (hnone : ∀ f, A (.error f) → R none) :
    Leads I (p.sampleAt date) fun s w => I w ∧ R s := by
  refine hresolve.bind fun r => ?_
  rcases r with f | hash
  · intro w hw
    simp only
    split
    · exact ⟨hlog w _ hw.1, hnone f hw.2⟩
    · exact ⟨hlog w _ hw.1, hnone f hw.2⟩
  · exact fun w hw => hsample hash hw.2 w hw.1

theorem sampleHead_leads {A : Except Failure Text → Prop} {J : World σ → Prop}
    (hlog : ∀ w l, I w → I { w with log := l })
    (hhead : Leads J p.repository.head.run fun r w => I w ∧ A r)
    (hsample : ∀ hash, A (.ok hash) →
      Leads I (p.sample (Snapshot.label p.now) hash) fun s w => I w ∧ R s)
    (hnone : ∀ f, A (.error f) → R none) :
    Leads J p.sampleHead fun s w => I w ∧ R s := by
  refine hhead.bind fun r => ?_
  rcases r with f | hash
  · exact fun w hw => ⟨hlog w _ hw.1, hnone f hw.2⟩
  · exact fun w hw => hsample hash hw.2 w hw.1

/-! ### All samples -/

/-- What a run through dates gives: samples of the dates in order, of all of them unless the work
was called off. -/
structure Sampled (R : Time → Option Snapshot → Prop) (dates : List Time) (taken : List Snapshot)
    (r : List Snapshot × Option Failure) (outs : List (Option Snapshot)) : Prop where
  samples : List.Forall₂ R (dates.take outs.length) outs
  series : r.1 = taken ++ outs.flatMap Option.toList
  whole : r.2 = none → outs.length = dates.length

theorem runDates_leads {R : Time → Option Snapshot → Prop} {hook : ProgressHook σ} {total : Nat}
    (hhook : ∀ done label, Leads I (hook done total label) fun _ => I) {dates : List Time}
    (hsample : ∀ t ∈ dates, Leads I (p.sampleAt t) fun s w => I w ∧ R t s) (done : Nat)
    (taken : List Snapshot) :
    Leads I (p.runDates total hook done taken dates) fun r w =>
      I w ∧ (r.2 = none ∨ w.canceled = true) ∧ ∃ outs, Sampled R dates taken r outs := by
  induction dates generalizing done taken with
  | nil => exact fun w hw => ⟨hw, .inl rfl, [], .nil, by simp [runDates]; rfl, fun _ => rfl⟩
  | cons date rest ih =>
    refine Action.isCanceled_leads.bind fun b => ?_
    cases b with
    | true => exact fun w hw => ⟨hw.1, .inr hw.2.symm, [], .nil, by simp; rfl, by simp⟩
    | false =>
      refine Leads.bind (Q := fun s w => I w ∧ R date s)
        (fun w hw => hsample date (by simp) w hw.1) fun s => ?_
      refine Leads.bind (Q := fun _ w => I w ∧ R date s)
        (fun w hw => ⟨hhook _ _ w hw.1, hw.2⟩) fun _ => ?_
      intro w hw
      obtain ⟨hI, hend, outs, hsamples, hseries, hwhole⟩ :=
        ih (fun t ht => hsample t (List.mem_cons_of_mem _ ht)) (done + 1) (taken ++ s.toList) w hw.1
      refine ⟨hI, hend, s :: outs, .cons hw.2 hsamples, ?_, fun hnone => ?_⟩
      · rw [hseries, List.flatMap_cons, List.append_assoc]
      · simpa using hwhole hnone

/-- The scheduled part of a run. -/
def runSchedule (hook : ProgressHook σ) : Action σ (List Snapshot × Option Failure) := do
  Action.log .info "Analyzing scheduled snapshots"
    (p.fields ++ [(Text.ofString "samples", .int p.dates.length)])
  p.runDates (p.dates.length + 1) hook 0 [] p.dates

/-- What follows the scheduled part, unless that was broken off. -/
def runPresent (hook : ProgressHook σ) :
    List Snapshot × Option Failure → Action σ (List Snapshot × Option Failure)
  | (taken, none) => p.runHead (p.dates.length + 1) hook taken
  | broken => pure broken

/-- The removal of the scratch directory. -/
def cleanUp : Action σ Unit :=
  Action.discard p.workDir p.fields "Failed to remove snapshot scratch directory"

theorem cleanUp_outside (w : World σ) : (p.cleanUp.run w).2.outside = w.outside := by
  obtain ⟨log, hrun⟩ := Action.discard_run p.workDir p.fields
    "Failed to remove snapshot scratch directory" w
  rw [cleanUp, hrun]

theorem cleanUp_files (w : World σ) :
    (p.cleanUp.run w).2.files = ((Files.removeAll p.workDir).run w.files).2 := by
  obtain ⟨log, hrun⟩ := Action.discard_run p.workDir p.fields
    "Failed to remove snapshot scratch directory" w
  rw [cleanUp, hrun]

/-- **A run is its scheduled part, the present, and the removal of the scratch directory.** -/
theorem run_run (hook : ProgressHook σ) (w : World σ) :
    (p.run hook).run w =
      let scheduled := (p.runSchedule hook).run w
      let result := (p.runPresent hook scheduled.1).run scheduled.2
      (result.1, (p.cleanUp.run result.2).2) := by
  change StateT.run (Action.log .info "Analyzing scheduled snapshots"
      (p.fields ++ [(Text.ofString "samples", .int p.dates.length)]) >>= fun _ =>
    p.runDates (p.dates.length + 1) hook 0 [] p.dates >>= _) w = _
  rw [run_seq, run_seq]
  have hscheduled : (p.runSchedule hook).run w =
      (p.runDates (p.dates.length + 1) hook 0 [] p.dates).run
        ((Action.log .info "Analyzing scheduled snapshots"
          (p.fields ++ [(Text.ofString "samples", .int p.dates.length)])).run w).2 := rfl
  rw [← hscheduled]
  rcases (p.runSchedule hook).run w with ⟨⟨taken, _ | f⟩, w'⟩ <;> rfl

theorem runSchedule_leads {R : Time → Option Snapshot → Prop} {hook : ProgressHook σ}
    (hlog : ∀ w l, I w → I { w with log := l })
    (hhook : ∀ done total label, Leads I (hook done total label) fun _ => I)
    (hsample : ∀ t ∈ p.dates, Leads I (p.sampleAt t) fun s w => I w ∧ R t s) :
    Leads I (p.runSchedule hook) fun r w =>
      I w ∧ (r.2 = none ∨ w.canceled = true) ∧ ∃ outs, Sampled R p.dates [] r outs :=
  (Action.log_leads hlog _ _ _).bind fun _ =>
    p.runDates_leads (fun done label => hhook done _ label) hsample 0 []

/-- `J` is what the sample of the present brings about. -/
theorem runHead_leads {J : World σ → Prop} {hook : ProgressHook σ} {total : Nat}
    {taken : List Snapshot} (hhook : ∀ done label, Leads J (hook done total label) fun _ => J)
    (hhead : p.headIsDue taken = true → Leads I p.sampleHead fun s w => J w ∧ R s)
    (hskip : p.headIsDue taken = false → ∀ w, I w → J w ∧ R none) :
    Leads I (p.runHead total hook taken) fun r w =>
      J w ∧ (∃ s, R s ∧ r.1 = taken ++ s.toList) ∧
        r.2 = if w.canceled = true then some .canceled else none := by
  -- the same tail follows whether or not the present is sampled
  have htail : ∀ s, Leads (fun w => J w ∧ R s)
      (do
        hook total total (Snapshot.label p.now)
        let canceled ← Action.isCanceled
        return (taken ++ s.toList, if canceled then some .canceled else none))
      fun (r : List Snapshot × Option Failure) w =>
        J w ∧ (∃ s, R s ∧ r.1 = taken ++ s.toList) ∧
          r.2 = if w.canceled = true then some .canceled else none := by
    intro s
    refine Leads.bind (Q := fun _ w => J w ∧ R s) (fun w hw => ⟨hhook _ _ w hw.1, hw.2⟩) fun _ => ?_
    exact fun w hw => ⟨hw.1, ⟨s, hw.2, rfl⟩, rfl⟩
  rw [runHead]
  split
  · rename_i hdue
    exact (hhead hdue).bind htail
  · rename_i hdue
    exact fun w hw => htail none w (hskip (by simpa using hdue) w hw)

end SeriesPlan

end MetricHistory
