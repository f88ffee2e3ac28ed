import MetricHistory.Proofs.Cache.Plain
import MetricHistory.Proofs.Snapshot.Transparency

/-!
# How runs fill a cache

A run stores what it measures in the cache, and does everything else in its scratch directory.
Whatever it measures, and even if it is called off, the directory of the cache holds nothing but
files afterwards.

* `SeriesPlan.Tidy` : the history, the analyzer and the display keep to the scratch directory;
* `SeriesPlan.Tidy.run_plain` : a run leaves a plain cache directory plain;
* `SeriesPlan.Filled` and `SeriesPlan.Filled.plain` : **a cache directory that any runs have filled
  is plain.**
-/

namespace MetricHistory

namespace SeriesPlan

open MetricHistory.Action (Leads)
open FileSystem (Confined Keeps Scratch)
open Cache (Beside LeadsTo NothingMore Plain Tended shown?)

variable {σ : Type} {p : SeriesPlan σ} {hook : ProgressHook σ} {dir : Text} {d s : Place}
  {base : FileSystem} {w : World σ} {c : Cache} {fingerprint : Text}

/-- Apart from the cache, all that a run does with files it does in the scratch directory. -/
structure Tidy (p : SeriesPlan σ) (hook : ProgressHook σ) (s : Place) : Prop where
  resolve : ∀ date w, Scratch p.workDir s w.files →
    Confined s w.files ((p.repository.resolve date).run w).2.files
  head : ∀ w, Scratch p.workDir s w.files → Confined s w.files (p.repository.head.run w).2.files
  exportFull : ∀ hash w, Scratch p.workDir s w.files →
    Confined s w.files ((p.repository.exportFull hash p.workDir).run w).2.files
  measureFull : ∀ w, Scratch p.workDir s w.files →
    Confined s w.files ((p.measurer.measureFull p.measuredDir).run w).2.files
  hook : ∀ done total label w, Scratch p.workDir s w.files →
    Confined s w.files ((hook done total label).run w).2.files

/-- What is known of the worlds of a run that fills a cache and has started with the files
`base`. -/
structure Filling (p : SeriesPlan σ) (dir : Text) (d s : Place) (base : FileSystem) (w : World σ) :
    Prop where
  plain : Plain dir d w.files
  scratch : Scratch p.workDir s w.files
  beside : Beside dir d s w.files
  around : (w.files.eraseBelow s).isDir dir = true
  elsewhere : ∀ q, (∀ x, q ≠ d ++ [x]) → ¬ s <+: q → ¬ q <+: s → w.files.node? q = base.node? q

theorem Filling.confined {w' : World σ} (h : Filling p dir d s base w)
    (hc : Confined s w.files w'.files) : Filling p dir d s base w' := by
  obtain ⟨hbeside, hmore⟩ := h.beside.confined hc
  have haround := hc.keeps_eraseBelow.isDir hc.current h.around
  have hthere : w'.files.isDir dir = true :=
    (Keeps.of_node? fun _ _ => (FileSystem.shrinks_eraseBelow w'.files s).node).isDir rfl haround
  refine ⟨⟨hc.sound, hthere, hbeside.leadsTo, fun name n hn hshown => ?_⟩, h.scratch.confined hc,
    hbeside, haround, fun q hd hbelow habove => ?_⟩
  · exact h.plain.files name n hn (hmore name n hn hshown)
  · rw [← h.elsewhere q hd hbelow habove]
    refine Option.ext fun n => ⟨fun hn => ?_, hc.keep hbelow⟩
    exact (hc.new hbelow hn).resolve_right fun hnew => habove hnew.2

theorem Filling.log (h : Filling p dir d s base w) (l : List LogEntry) :
    Filling p dir d s base { w with log := l } :=
  ⟨h.plain, h.scratch, h.beside, h.around, h.elsewhere⟩

theorem Filling.serves {files : FileSystem} (h : Filling p dir d s base w)
    (hserves : Cache.Serves dir w.files files) (htended : Tended dir d w.files files) :
    Filling p dir d s base { w with files } := by
  obtain ⟨hbeside, hscratch⟩ := h.beside.serves hserves h.scratch
  exact ⟨htended.plain, hscratch, hbeside,
    (Cache.keeps_eraseBelow hserves.keeps s).isDir hserves.current h.around,
    fun q hd hbelow habove => (htended.elsewhere q hd).trans (h.elsewhere q hd hbelow habove)⟩

section Tidy

variable (htidy : p.Tidy hook s)
include htidy

theorem Tidy.measure_filling (label hash : Text) (fields : LogFields) :
    Leads (Filling p dir d s base) (p.measure label hash fields) fun _ =>
      Filling p dir d s base := by
  refine (p.measure_leads (E := Filling p dir d s base) (R := fun _ => True)
    (fun w l hw => hw.log l) (.of_attempt fun w hw => ?_) (fun w hw _ => ⟨hw, trivial⟩)
    (.of_attempt fun w hw => ?_)).weaken fun _ _ h => h.1
  · have hstays := hw.confined (htidy.exportFull hash w hw.scratch)
    split
    · exact hstays
    · exact ⟨hstays, trivial⟩
  · refine ⟨hw.1.confined (htidy.measureFull w hw.1.scratch), ?_⟩
    split <;> trivial

theorem Tidy.sample_filling (hcache : p.cache = some (c, fingerprint)) (hdir : c.dir = dir)
    (label hash : Text) :
    Leads (Filling p dir d s base) (p.sample label hash) fun _ => Filling p dir d s base := by
  subst hdir
  refine (p.sample_leads (M := fun _ => True) (R := fun _ => True) (fun w l hw => hw.log l)
    (fun w hw => ?_) ((htidy.measure_filling label hash _).weaken fun _ _ h => ⟨h, trivial⟩)
    (fun snapshot _ => ?_) fun _ _ => trivial).weaken fun _ _ h => h.1
  · rw [p.cached_run hcache]
    obtain ⟨hserves, -⟩ :=
      c.get_spec (p.cacheKey hash) fingerprint hw.plain.stands hw.plain.noLinks
    exact ⟨hw.serves hserves (hw.plain.get _ _), fun _ _ => trivial⟩
  · refine p.store_leads hcache (fun w l hw => hw.log l) fun data _ w hw => ?_
    obtain ⟨hserves, -⟩ :=
      c.set_spec (p.cacheKey hash) fingerprint data hw.plain.stands hw.plain.noLinks
    exact hw.serves hserves (hw.plain.set _ _ _)

/-- **A run leaves a plain cache directory plain, and everything but this and its scratch directory
alone.** -/
theorem Tidy.run_filling (hcache : p.cache = some (c, fingerprint)) (hdir : c.dir = dir)
    (hw : Filling p dir d s base w) : Filling p dir d s base ((p.run hook).run w).2 := by
  have hhook : ∀ done total label,
      Leads (Filling p dir d s base) (hook done total label) fun _ => Filling p dir d s base :=
    fun done total label w hw => hw.confined (htidy.hook done total label w hw.scratch)
  have hsample : ∀ label hash,
      Leads (Filling p dir d s base) (p.sample label hash) fun _ => Filling p dir d s base :=
    htidy.sample_filling hcache hdir
  have hdate : ∀ t, Leads (Filling p dir d s base) (p.sampleAt t) fun _ w =>
      Filling p dir d s base w ∧ True := by
    intro t
    refine p.sampleAt_leads (A := fun _ => True) (R := fun _ => True) (fun w l hw => hw.log l)
      (.of_attempt fun w hw => ⟨hw.confined (htidy.resolve t w hw.scratch), trivial⟩)
      (fun hash _ => (hsample _ hash).weaken fun _ _ h => ⟨h, trivial⟩) fun _ _ => trivial
  have hpresent : Leads (Filling p dir d s base) p.sampleHead fun _ w =>
      Filling p dir d s base w ∧ True := by
    refine p.sampleHead_leads (A := fun _ => True) (R := fun _ => True) (fun w l hw => hw.log l)
      (.of_attempt fun w hw => ⟨hw.confined (htidy.head w hw.scratch), trivial⟩)
      (fun hash _ => (hsample _ hash).weaken fun _ _ h => ⟨h, trivial⟩) fun _ _ => trivial
  obtain ⟨hscheduled, -⟩ := p.runSchedule_leads (R := fun _ _ => True) (fun w l hw => hw.log l)
    hhook (fun t _ => hdate t) w hw
  -- the present is sampled unless the run ended before
  have hlast : ∀ r w', Filling p dir d s base w' →
      Filling p dir d s base ((p.runPresent hook r).run w').2 := by
    rintro ⟨taken, _ | f⟩ w' hw'
    · exact (p.runHead_leads (J := Filling p dir d s base) (R := fun _ => True)
        (fun done label => hhook done _ label) (fun _ => hpresent) (fun _ w hw => ⟨hw, trivial⟩)
        w' hw').1
    · exact hw'
  have hend := hlast ((p.runSchedule hook).run w).1 _ hscheduled
  rw [p.run_run]
  refine hend.confined ?_
  simp only [p.cleanUp_files, hend.scratch.removeAll_run]
  exact hend.scratch.confined_eraseBelow

end Tidy

/-- A cache directory that runs have filled: it was empty when the cache was opened, and apart from
the runs nothing was put there. -/
inductive Filled (dir : Text) (d : Place) : FileSystem → Prop
  | empty {fs : FileSystem} (sound : fs.Sound) (there : fs.isDir dir = true)
      (leads : LeadsTo dir fs d)
      (empty : ∀ name n, Path.IsName name → shown? dir fs name ≠ some n) : Filled dir d fs
  | run {σ : Type} {p : SeriesPlan σ} {hook : ProgressHook σ} {s : Place} {w : World σ} {c : Cache}
      {fingerprint : Text} (before : Filled dir d w.files) (tidy : p.Tidy hook s)
      (cache : p.cache = some (c, fingerprint)) (directory : c.dir = dir)
      (scratch : Scratch p.workDir s w.files) (beside : Beside dir d s w.files)
      (around : (w.files.eraseBelow s).isDir dir = true) :
      Filled dir d ((p.run hook).run w).2.files
  | later {fs fs' : FileSystem} (before : Filled dir d fs) (sound : fs'.Sound)
      (there : fs'.isDir dir = true) (leads : LeadsTo dir fs' d) (more : NothingMore dir fs fs') :
      Filled dir d fs'

/-- **A cache directory that runs have filled is plain.**  The induction is on the runs. -/
theorem Filled.plain {fs : FileSystem} (h : Filled dir d fs) : Plain dir d fs := by
  induction h with
  | empty hsound hthere hleads hempty =>
    exact ⟨hsound, hthere, hleads, fun name n hn hshown => absurd hshown (hempty name n hn)⟩
  | run _ htidy hcache hdir hscratch hbeside haround ih =>
    exact (htidy.run_filling hcache hdir ⟨ih, hscratch, hbeside, haround, fun _ _ _ _ => rfl⟩).plain
  | later _ hsound hthere hleads hmore ih =>
    exact ⟨hsound, hthere, hleads, fun name n hn hshown =>
      ih.files name n hn (hmore name n hn hshown)⟩

end SeriesPlan

end MetricHistory
