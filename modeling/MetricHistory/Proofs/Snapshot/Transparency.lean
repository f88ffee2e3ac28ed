import Mathlib.Data.Option.Defs
import MetricHistory.Proofs.Cache.Directory
import MetricHistory.Proofs.Snapshot.Run
import MetricHistory.Proofs.Snapshot.Stored
import MetricHistory.Proofs.Text.Split

/-!
# A cache does not show

Runs that share a cache give the series they would give without one, however often they have been
made before, by whichever analyzer and with whichever lifetime of entries.

* `Cache.Beside` : the cache directory is out of the way of the scratch directory, so that neither
  disturbs the other;
* `SeriesPlan.Trusted` : every entry of the cache directory that can be read is the measurement that
  its file name and its fingerprint promise;
* `SeriesPlan.cached_leads` and `SeriesPlan.store_trusted` : what is looked up is such a measurement,
  and what is stored is one;
* `SeriesPlan.history_transparent` : **every run of a history gives the same series as without the
  cache.**
-/

namespace MetricHistory

namespace Cache

open FileSystem

variable {dir path : Text} {fs fs' : FileSystem} {d s : Place}

/-- The cache directory lies at `d`, the way there does not go through the place `s`, and neither
place is in the other. -/
structure Beside (dir : Text) (d s : Place) (fs : FileSystem) : Prop where
  leads : LeadsTo dir (fs.eraseBelow s) d
  notIn : ¬ d <+: s
  notAround : ¬ s <+: d

theorem Beside.leadsTo (h : Beside dir d s fs) : LeadsTo dir fs d := by
  obtain ⟨left, hreach⟩ := h.leads
  exact ⟨left, (shrinks_eraseBelow fs s).reaches hreach⟩

theorem Beside.stands (h : Beside dir d s fs) (hs : fs.Sound) : Stands dir fs :=
  ⟨hs, .inr (isDir_clean_iff.2 ⟨d, h.leadsTo⟩)⟩

/-- Work at the place `s` leaves the cache directory where it is and brings nothing into it. -/
theorem Beside.confined (h : Beside dir d s fs) (hc : Confined s fs fs') :
    Beside dir d s fs' ∧ NothingMore dir fs fs' := by
  have hbeside : Beside dir d s fs' :=
    ⟨h.leads.mono hc.keeps_eraseBelow hc.current, h.notIn, h.notAround⟩
  refine ⟨hbeside, fun name n hn hshown => ?_⟩
  rw [hbeside.leadsTo.shown? hn] at hshown
  rw [h.leadsTo.shown? hn]
  have hout : ¬ s <+: d ++ [name] := by
    intro hp
    rcases List.prefix_or_prefix_of_prefix hp (List.prefix_append d [name]) with h₁ | h₁
    · exact h.notAround h₁
    · exact h.notIn h₁
  exact (hc.new hout hshown).resolve_right fun hnew =>
    h.notIn ((List.prefix_append d [name]).trans hnew.2)

theorem keeps_eraseBelow (h : fs.Keeps fs') (s : Place) :
    (fs.eraseBelow s).Keeps (fs'.eraseBelow s) :=
  ⟨fun hq => node?_eraseBelow_mono hq id fun _ => h.dir,
    fun hq => node?_eraseBelow_mono hq id fun _ => h.link⟩

theorem Beside.serves (h : Beside dir d s fs) (hserves : Serves dir fs fs')
    (hscratch : Scratch path s fs) : Beside dir d s fs' ∧ Scratch path s fs' := by
  have hkeeps := keeps_eraseBelow hserves.keeps s
  have hbeside : Beside dir d s fs' :=
    ⟨h.leads.mono hkeeps hserves.current, h.notIn, h.notAround⟩
  refine ⟨hbeside, hserves.stands.sound, hserves.current ▸ hscratch.current, ?_⟩
  obtain ⟨r, xs, ys, left, e, hpath, hproper, hnames, hys, heq, hreach, hrest⟩ := hscratch.way
  refine ⟨r, xs, ys, left, e, hpath, hproper, hnames, hys, heq, ?_, fun zs ws hzw hz hw => ?_⟩
  · rw [origin, hserves.current]
    exact hreach.mono hkeeps
  rcases hnode : fs'.node? (e ++ zs) with _ | n
  · exact .inl rfl
  by_cases hdir : n = .dir
  · exact .inr (by rw [hdir])
  rcases hserves.new hnode hdir with hold | ⟨d', x, hd', hx⟩
  · rcases hrest zs ws hzw hz hw with hnone | hdir'
    · simp [hnone] at hold
    · rw [hdir'] at hold
      exact absurd (Option.some.inj hold).symm hdir
  · -- the file would be in the cache directory and on the way to the scratch directory
    rw [hbeside.leadsTo.unique hd'] at hx
    refine absurd ?_ h.notIn
    rw [heq, hzw, ← List.append_assoc, hx, List.append_assoc]
    exact List.prefix_append _ _

end Cache

namespace Snapshot

theorem Same.of_sameMeasurement {s t : Snapshot} (h : s.SameMeasurement t) (label commit : Text) :
    Same { s with date := label, commit } { t with date := label, commit } :=
  ⟨⟨h.testLoc, h.production, h.surfaceArea, h.surfaceAreaLists, h.antipatterns, h.hotspots⟩, rfl, rfl⟩

end Snapshot

namespace SeriesPlan

open MetricHistory.Action (Leads)
open FileSystem (Confined Scratch)
open Cache (Beside NothingNew NoLinks shown? entryName)

/-- What exporting and measuring gives for a framework, a commit, a directory of it and the
fingerprint of an analyzer. -/
abbrev Outcome := Text → Text → Text → Text → Option Document

/-- A run with a cache: what is run, the world it starts in, its scratch directory, and what its
repository answers. -/
structure CachedRun (σ : Type) where
  plan : SeriesPlan σ
  hook : ProgressHook σ
  start : World σ
  cache : Cache
  fingerprint : Text
  scratch : Place
  resolved : Time → Option Text
  newest : Option Text

namespace CachedRun

variable {σ : Type} (r : CachedRun σ)

/-- The result of the run and the world after it. -/
def result : (List Snapshot × Option Failure) × World σ := (r.plan.run r.hook).run r.start

/-- The result of the run without the cache. -/
def resultWithout : (List Snapshot × Option Failure) × World σ :=
  (({ r.plan with cache := none } : SeriesPlan σ).run r.hook).run r.start

/-- The run may ask for the measurement of the commit. -/
def Asks (hash : Text) : Prop := r.newest = some hash ∨ ∃ date, r.resolved date = some hash

/-- The snapshot of a commit under a label, if it can be measured. -/
def sampleOf (outcome : Outcome) (label hash : Text) : Option Snapshot :=
  (outcome r.plan.framework hash r.plan.subdir r.fingerprint).map (Snapshot.ofDocument label hash)

/-- The work goes on, and the scratch path leads to its place. -/
structure Ready (w : World σ) : Prop where
  going : w.canceled = false
  scratch : Scratch r.plan.workDir r.scratch w.files

/-- The work goes on, and nothing has changed outside the scratch directory. -/
structure Stays (w w' : World σ) : Prop where
  going : w'.canceled = false
  confined : Confined r.scratch w.files w'.files

/-- What is asked of a run.  Its cache directory is at `d`, beside the scratch directory; the
repository gives its answers, and exporting and measuring a commit gives the outcome for the run's
framework, directory and fingerprint.  All of this works in the scratch directory only. -/
structure Fair (dir : Text) (d : Place) (outcome : Outcome) : Prop where
  cache : r.plan.cache = some (r.cache, r.fingerprint)
  directory : r.cache.dir = dir
  framework : Text.byte '|' ∉ r.plan.framework
  fingerprint : Utf8.valid r.fingerprint = true
  commit : ∀ hash, r.Asks hash → Text.byte '|' ∉ hash
  ready : r.Ready r.start
  beside : Beside dir d r.scratch r.start.files
  resolve : ∀ date w, r.Ready w →
    ((r.plan.repository.resolve date).run w).1.toOption = r.resolved date ∧
      r.Stays w ((r.plan.repository.resolve date).run w).2
  head : ∀ w, r.Ready w → (r.plan.repository.head.run w).1.toOption = r.newest ∧
    r.Stays w (r.plan.repository.head.run w).2
  measure : ∀ label hash fields w, r.Ready w → r.Asks hash →
    ((r.plan.measure label hash fields).run w).1 = r.sampleOf outcome label hash ∧
      r.Stays w ((r.plan.measure label hash fields).run w).2
  hook : ∀ done total label w, r.Ready w → r.Stays w ((r.hook done total label).run w).2

end CachedRun

/-- The first run starts with the cache directory of the world, and every other one with the one that
the run before it has left.  Nothing has been put there in between. -/
def History {σ : Type} (dir : Text) : World σ → List (CachedRun σ) → Prop
  | _, [] => True
  | w, r :: rest => NothingNew dir w.files r.start.files ∧ History dir r.result.2 rest

/-- Keys of frameworks and commits without a bar have one reading. -/
theorem keyOf_inj {framework hash subdir framework' hash' subdir' : Text}
    (hf : Text.byte '|' ∉ framework) (hf' : Text.byte '|' ∉ framework')
    (hh : Text.byte '|' ∉ hash) (hh' : Text.byte '|' ∉ hash')
    (h : Cache.keyOf [framework, hash, subdir] = Cache.keyOf [framework', hash', subdir']) :
    framework = framework' ∧ hash = hash' ∧ subdir = subdir' := by
  have hkey : ∀ a b c : Text,
      Cache.keyOf [a, b, c] = a ++ Text.byte '|' :: (b ++ Text.byte '|' :: c) := by
    intro a b c
    simp [Cache.keyOf, Text.join, List.intercalate]
    rfl
  rw [hkey, hkey] at h
  obtain ⟨hframework, hrest⟩ := Text.append_sep_inj hf hf' h
  exact ⟨hframework, Text.append_sep_inj hh hh' hrest⟩

/-! ### What the cache directory holds -/

variable {σ : Type} {runs : List (CachedRun σ)} {outcome : Outcome} {dir : Text} {d : Place}
  {fs fs' : FileSystem} {r : CachedRun σ} {hash label : Text} {w : World σ}

/-- A snapshot that is read from an entry file is the measurement of a commit that one of the runs
asks for: its key gives the file its name, and its fingerprint is that of the run. -/
def Right (runs : List (CachedRun σ)) (outcome : Outcome) (name content : Text) : Prop :=
  ∀ e s, CacheEntry.parse? content = some e → Snapshot.parse? e.data = some s →
    ∃ r ∈ runs, ∃ hash doc label, r.Asks hash ∧ name = entryName (r.plan.cacheKey hash) ∧
      e.fingerprint = r.fingerprint ∧
      outcome r.plan.framework hash r.plan.subdir r.fingerprint = some doc ∧
      s.SameMeasurement (Snapshot.ofDocument label hash doc)

/-- There are no links in the cache directory, and all of its entry files are right. -/
structure Trusted (runs : List (CachedRun σ)) (outcome : Outcome) (dir : Text) (fs : FileSystem) :
    Prop where
  noLinks : NoLinks dir fs
  entries : ∀ key mode content modified,
    shown? dir fs (entryName key) = some (.file mode content modified) →
      Right runs outcome (entryName key) content

theorem Trusted.of_nothingNew (h : Trusted runs outcome dir fs) (hnew : NothingNew dir fs fs') :
    Trusted runs outcome dir fs' where
  noLinks := h.noLinks.of_nothingNew hnew
  entries key mode content modified hshown :=
    h.entries key mode content modified
      (hnew _ _ (Cache.isName_entryName key) (by simp) hshown)

/-- An empty directory holds nothing wrong. -/
theorem trusted_of_empty (h : ∀ name n, Path.IsName name → shown? dir fs name ≠ some n) :
    Trusted runs outcome dir fs where
  noLinks name t hn := h name (.link t) hn
  entries key _ _ _ hshown := absurd hshown (h _ _ (Cache.isName_entryName key))

/-- Different keys of the runs have different file names. -/
def CollisionFree (runs : List (CachedRun σ)) : Prop :=
  ∀ r ∈ runs, ∀ r' ∈ runs, ∀ hash hash', r.Asks hash → r'.Asks hash' →
    Blake3.hashHex (r.plan.cacheKey hash) = Blake3.hashHex (r'.plan.cacheKey hash') →
      r.plan.cacheKey hash = r'.plan.cacheKey hash'

/-- **What a lookup finds in a trusted directory is the measurement that was asked for.** -/
theorem Trusted.sameMeasurement (h : Trusted runs outcome dir fs) (hfree : CollisionFree runs)
    (hfair : ∀ r ∈ runs, r.Fair dir d outcome) (hr : r ∈ runs) (hasks : r.Asks hash) {data : Text}
    {s : Snapshot} (hheld : Cache.Holds dir fs (r.plan.cacheKey hash) r.fingerprint data)
    (hs : Snapshot.parse? data = some s) :
    ∃ doc label, outcome r.plan.framework hash r.plan.subdir r.fingerprint = some doc ∧
      s.SameMeasurement (Snapshot.ofDocument label hash doc) := by
  obtain ⟨mode, content, modified, e, hshown, hparse, -, hprint, rfl⟩ := hheld
  obtain ⟨r', hr', hash', doc, label, hasks', hname, hprint', hdoc, hsame⟩ :=
    h.entries _ mode content modified hshown e s hparse hs
  have hkeys : r.plan.cacheKey hash = r'.plan.cacheKey hash' :=
    hfree r hr r' hr' hash hash' hasks hasks' (List.append_cancel_right hname)
  obtain ⟨hframework, rfl, hsubdir⟩ := keyOf_inj (hfair r hr).framework (hfair r' hr').framework
    ((hfair r hr).commit hash hasks) ((hfair r' hr').commit hash' hasks') hkeys
  rw [← hframework, ← hsubdir, ← hprint', hprint] at hdoc
  exact ⟨doc, label, hdoc, hsame⟩

/-- **What is stored in a trusted directory is right.** -/
theorem Trusted.set (h : Trusted runs outcome dir fs) (hfair : r.Fair dir d outcome) (hr : r ∈ runs)
    (hasks : r.Asks hash) {doc : Document}
    (hdoc : outcome r.plan.framework hash r.plan.subdir r.fingerprint = some doc)
    (hformed : doc.WellFormed) {data : Text}
    (hdata : (Snapshot.ofDocument label hash doc).encode? = some data)
    (hstands : Cache.Stands dir fs) :
    Trusted runs outcome dir
      ((r.cache.set (r.plan.cacheKey hash) r.fingerprint data).run fs).2 := by
  have hcachedir := hfair.directory
  subst hcachedir
  obtain ⟨-, hbrings⟩ := r.cache.set_spec (r.plan.cacheKey hash) r.fingerprint data hstands h.noLinks
  constructor
  · intro name t hn hshown
    rcases hbrings name _ hn (by simp) hshown with hold | ⟨raw, -, mode, content, modified, hfile, -⟩
    · exact h.noLinks name t hn hold
    · simp at hfile
  · intro key mode content modified hshown
    rcases hbrings _ _ (Cache.isName_entryName key) (by simp) hshown with
      hold | ⟨raw, hraw, mode', content', modified', hfile, ⟨i, htemp⟩ | ⟨hname, hcontent⟩⟩
    · exact h.entries key mode content modified hold
    · exact absurd htemp.symm (Cache.tempName_ne_entryName i key)
    · simp only [FileNode.file.injEq] at hfile
      obtain ⟨-, rfl, -⟩ := hfile
      subst hcontent
      intro e s hparse hs
      obtain ⟨data', hdata', -⟩ := CacheEntry.encode?_eq_some hraw
      obtain ⟨-, hprint, -⟩ := CacheEntry.parse?_encode? hraw hdata' hparse
      refine ⟨r, hr, hash, doc, label, hasks, hname, ?_, hdoc, ?_⟩
      · rw [hprint, Utf8.repair_of_valid hfair.fingerprint]
      · exact Snapshot.parse?_stored (Snapshot.wellFormed_ofDocument label hash hformed) hdata hraw
          hparse hs

/-! ### What a run gives -/

section Series

variable (p : SeriesPlan σ)

/-- The series of the given samples of the dates and of the present, which is taken if it is due. -/
def seriesOf (atDate : Time → Option Snapshot) (atPresent : Option Snapshot) : List Snapshot :=
  let scheduled := p.dates.flatMap fun t => (atDate t).toList
  scheduled ++ if p.headIsDue scheduled then atPresent.toList else []

theorem headIsDue_congr {taken taken' : List Snapshot}
    (h : List.Forall₂ Snapshot.Same taken taken') : p.headIsDue taken = p.headIsDue taken' := by
  rw [headIsDue, headIsDue, List.getLast?_eq_head?_reverse, List.getLast?_eq_head?_reverse]
  have hreverse := List.forall₂_reverse_iff.2 h
  generalize taken.reverse = last at hreverse ⊢
  generalize taken'.reverse = last' at hreverse ⊢
  cases hreverse with
  | nil => rfl
  | cons hlast _ => simp only [List.head?_cons, hlast.date]

theorem same_toList {s t : Option Snapshot} (h : Option.Rel Snapshot.Same s t) :
    List.Forall₂ Snapshot.Same s.toList t.toList := by
  cases h with
  | some h => exact .cons h .nil
  | none => exact .nil

theorem same_of_common {a b c : List Snapshot} (ha : List.Forall₂ Snapshot.Same a c)
    (hb : List.Forall₂ Snapshot.Same b c) : List.Forall₂ Snapshot.Same a b := by
  induction ha generalizing b with
  | nil =>
    cases hb
    exact .nil
  | cons hs _ ih =>
    cases hb with
    | cons ht hb => exact .cons (hs.trans ht.symm) (ih hb)

/-- **A run whose samples are the given ones makes their series.** -/
theorem run_same {I : World σ → Prop} {hook : ProgressHook σ} {atDate : Time → Option Snapshot}
    {atPresent : Option Snapshot} (hlog : ∀ w l, I w → I { w with log := l })
    (hgoing : ∀ w, I w → w.canceled = false)
    (hhook : ∀ done total label, Leads I (hook done total label) fun _ => I)
    (hdate : ∀ t, Leads I (p.sampleAt t) fun s w =>
      I w ∧ Option.Rel Snapshot.Same s (atDate t))
    (hpresent : Leads I p.sampleHead fun s w => I w ∧ Option.Rel Snapshot.Same s atPresent)
    (hw : I w) :
    ((p.run hook).run w).1.2 = none ∧
      List.Forall₂ Snapshot.Same ((p.run hook).run w).1.1 (p.seriesOf atDate atPresent) ∧
        ∃ w', I w' ∧ ((p.run hook).run w).2 = (p.cleanUp.run w').2 := by
  obtain ⟨hw₁, hend, outs, hsampled⟩ :=
    p.runSchedule_leads hlog hhook (fun t _ => hdate t) w hw
  rw [p.run_run]
  rcases hrun : (p.runSchedule hook).run w with ⟨⟨taken, end?⟩, w₁⟩
  rw [hrun] at hw₁ hend hsampled
  obtain rfl : end? = none := hend.resolve_right (by simp [hgoing w₁ hw₁])
  -- the samples of the dates, those that could not be taken left out
  have htaken : List.Forall₂ Snapshot.Same taken (p.dates.flatMap fun t => (atDate t).toList) := by
    have hsamples := hsampled.samples
    rw [hsampled.whole rfl, List.take_length] at hsamples
    have hseries : taken = outs.flatMap Option.toList := hsampled.series
    rw [hseries]
    exact List.rel_flatMap hsamples.flip fun _ _ h => same_toList h
  obtain ⟨hw₂, ⟨s, hs, hseries⟩, hend⟩ := p.runHead_leads (J := I)
    (R := fun s => Option.Rel Snapshot.Same s (if p.headIsDue taken then atPresent else none))
    (fun done label => hhook done _ label) (fun hdue => by rw [hdue]; exact hpresent)
    (fun hskip v hv => ⟨hv, by rw [hskip]; exact .none⟩) w₁ hw₁
  refine ⟨?_, ?_, _, hw₂, rfl⟩
  · exact hend.trans (if_neg (by simp [hgoing _ hw₂]))
  · refine hseries ▸ List.rel_append htaken ?_
    rw [← p.headIsDue_congr htaken]
    convert same_toList hs using 1
    split <;> rfl

end Series

namespace CachedRun

theorem sampleOf_refl (hformed : ∀ framework hash subdir print doc,
      outcome framework hash subdir print = some doc → doc.WellFormed) (label : Text) :
    Option.Rel Snapshot.Same (r.sampleOf outcome label hash) (r.sampleOf outcome label hash) := by
  rw [sampleOf]
  cases hdoc : outcome r.plan.framework hash r.plan.subdir r.fingerprint with
  | none => exact .none
  | some doc =>
    exact .some (Snapshot.wellFormed_ofDocument label hash (hformed _ _ _ _ doc hdoc)).same_refl

/-- **A run with fair answers, with its cache, another one or none, makes the series of its answers
if its samples are right.**  `I` is what is known of all of its worlds. -/
theorem Fair.run_same (hfair : r.Fair dir d outcome) (cache : Option (Cache × Text))
    {I : World σ → Prop} (hready : ∀ w, I w → r.Ready w)
    (hstays : ∀ w w', I w → r.Stays w w' → I w')
    (hsample : ∀ label hash, r.Asks hash →
      Leads I (({ r.plan with cache } : SeriesPlan σ).sample label hash) fun s w =>
        I w ∧ Option.Rel Snapshot.Same s (r.sampleOf outcome label hash)) (hw : I w) :
    let p : SeriesPlan σ := { r.plan with cache }
    ((p.run r.hook).run w).1.2 = none ∧
      List.Forall₂ Snapshot.Same ((p.run r.hook).run w).1.1
        (r.plan.seriesOf (fun t => (r.resolved t).bind (r.sampleOf outcome (Snapshot.label t)))
          (r.newest.bind (r.sampleOf outcome (Snapshot.label r.plan.now)))) ∧
        ∃ w', I w' ∧ ((p.run r.hook).run w).2 = (p.cleanUp.run w').2 := by
  intro p
  have hlog : ∀ w l, I w → I { w with log := l } := fun w l hw =>
    hstays w _ hw ⟨(hready w hw).going, (hready w hw).scratch.sound.confined_refl _⟩
  refine p.run_same hlog (fun w hw => (hready w hw).going) (fun done total label w hw =>
    hstays w _ hw (hfair.hook done total label w (hready w hw))) (fun t => ?_) ?_ hw
  · refine p.sampleAt_leads (A := fun a => a.toOption = r.resolved t) hlog
      (.of_attempt fun w hw => ?_) (fun hash hhash => ?_) (fun f hf => ?_)
    · obtain ⟨hanswer, hstay⟩ := hfair.resolve t w (hready w hw)
      exact ⟨hstays w _ hw hstay, hanswer⟩
    · rw [← hhash]
      exact hsample _ hash (.inr ⟨t, hhash.symm⟩)
    · rw [← hf]
      exact .none
  · refine p.sampleHead_leads (A := fun a => a.toOption = r.newest) hlog
      (.of_attempt fun w hw => ?_) (fun hash hhash => ?_) (fun f hf => ?_)
    · obtain ⟨hanswer, hstay⟩ := hfair.head w (hready w hw)
      exact ⟨hstays w _ hw hstay, hanswer⟩
    · rw [← hhash]
      exact hsample _ hash (.inl hhash.symm)
    · rw [← hf]
      exact .none

/-- Without a cache the samples of a run are the measurements. -/
theorem Fair.sample_without (hfair : r.Fair dir d outcome)
    (hformed : ∀ framework hash subdir print doc,
      outcome framework hash subdir print = some doc → doc.WellFormed)
    (label : Text) (hasks : r.Asks hash) :
    Leads r.Ready (({ r.plan with cache := none } : SeriesPlan σ).sample label hash) fun s w =>
      r.Ready w ∧ Option.Rel Snapshot.Same s (r.sampleOf outcome label hash) := by
  intro w hw
  obtain ⟨hanswer, hstay⟩ := hfair.measure label hash (r.plan.sampleFields label hash) w hw hasks
  rw [SeriesPlan.sample_run_of_none _ rfl]
  refine ⟨⟨hstay.going, hw.scratch.confined hstay.confined⟩, ?_⟩
  exact hanswer ▸ sampleOf_refl hformed label

/-- What is known of the worlds of a run with its cache. -/
structure Keeping (runs : List (CachedRun σ)) (outcome : Outcome) (dir : Text) (d : Place)
    (r : CachedRun σ) (w : World σ) : Prop where
  ready : r.Ready w
  beside : Beside dir d r.scratch w.files
  trusted : Trusted runs outcome dir w.files

theorem Keeping.stays {w' : World σ} (h : Keeping runs outcome dir d r w) (hstays : r.Stays w w') :
    Keeping runs outcome dir d r w' := by
  obtain ⟨hbeside, hnew⟩ := h.beside.confined hstays.confined
  exact ⟨⟨hstays.going, h.ready.scratch.confined hstays.confined⟩, hbeside,
    h.trusted.of_nothingNew hnew.nothingNew⟩

theorem Keeping.serves {files : FileSystem} (h : Keeping runs outcome dir d r w)
    (hserves : Cache.Serves dir w.files files) (htrusted : Trusted runs outcome dir files) :
    Keeping runs outcome dir d r { w with files } := by
  obtain ⟨hbeside, hscratch⟩ := h.beside.serves hserves h.ready.scratch
  exact ⟨⟨h.ready.going, hscratch⟩, hbeside, htrusted⟩

theorem Keeping.cacheStands (h : Keeping runs outcome dir d r w) : Cache.Stands dir w.files :=
  h.beside.stands h.ready.scratch.sound

section Caching

variable (hfree : CollisionFree runs) (hfair : ∀ r ∈ runs, r.Fair dir d outcome)
  (hformed : ∀ framework hash subdir print doc,
    outcome framework hash subdir print = some doc → doc.WellFormed)

include hfree hfair in
/-- **What is found in the cache is the measurement that was asked for, under the label.** -/
theorem cached_leads (hr : r ∈ runs) (hasks : r.Asks hash) (label : Text) :
    Leads (Keeping runs outcome dir d r) (r.plan.cached (r.plan.cacheKey hash)) fun found w =>
      Keeping runs outcome dir d r w ∧ ∀ s, found = some s →
        Option.Rel Snapshot.Same
          (some { s with date := label, commit := shortHash Snapshot.hashLength hash })
          (r.sampleOf outcome label hash) := by
  intro w hw
  have hdir := (hfair r hr).directory
  subst hdir
  obtain ⟨hserves, hnew, hheld⟩ :=
    r.cache.get_spec (r.plan.cacheKey hash) r.fingerprint hw.cacheStands hw.trusted.noLinks
  rw [r.plan.cached_run (hfair r hr).cache]
  refine ⟨hw.serves hserves (hw.trusted.of_nothingNew hnew), fun s hs => ?_⟩
  obtain ⟨data, hdata, hparse⟩ := Option.bind_eq_some_iff.1 hs
  obtain ⟨doc, label', hdoc, hsame⟩ :=
    hw.trusted.sameMeasurement hfree hfair hr hasks (hheld data hdata) hparse
  rw [sampleOf, hdoc]
  exact .some (.of_sameMeasurement hsame label _)

include hfair hformed in
/-- **What is stored in the cache keeps it right.** -/
theorem store_keeping (hr : r ∈ runs) (hasks : r.Asks hash) {s : Snapshot} {fields : LogFields}
    (hs : some s = r.sampleOf outcome label hash) :
    Leads (Keeping runs outcome dir d r) (r.plan.store (r.plan.cacheKey hash) s fields) fun _ =>
      Keeping runs outcome dir d r := by
  obtain ⟨doc, hdoc, rfl⟩ := Option.map_eq_some_iff.1 hs.symm
  refine r.plan.store_leads (hfair r hr).cache (fun w l h => h.stays ⟨h.ready.going,
    h.ready.scratch.sound.confined_refl _⟩) fun data hdata w hw => ?_
  have htrusted := hw.trusted.set (hfair r hr) hr hasks hdoc (hformed _ _ _ _ doc hdoc) hdata
    hw.cacheStands
  have hdir := (hfair r hr).directory
  subst hdir
  exact hw.serves (r.cache.set_spec _ _ data hw.cacheStands hw.trusted.noLinks).1 htrusted

include hfree hfair hformed in
/-- With the cache the samples of a run are the measurements, too. -/
theorem sample_with (hr : r ∈ runs) (label : Text) (hasks : r.Asks hash) :
    Leads (Keeping runs outcome dir d r) (r.plan.sample label hash) fun s w =>
      Keeping runs outcome dir d r w ∧
        Option.Rel Snapshot.Same s (r.sampleOf outcome label hash) := by
  refine r.plan.sample_leads (M := fun s => s = r.sampleOf outcome label hash)
    (fun w l h => h.stays ⟨h.ready.going, h.ready.scratch.sound.confined_refl _⟩)
    (cached_leads hfree hfair hr hasks label) (fun w hw => ?_)
    (fun s hs => store_keeping hfair hformed hr hasks hs) (fun s hs => ?_)
  · obtain ⟨hanswer, hstay⟩ := (hfair r hr).measure label hash _ w hw.ready hasks
    exact ⟨hw.stays hstay, hanswer⟩
  · exact hs ▸ sampleOf_refl hformed label

include hfree hfair hformed in
/-- **A run that starts with a right cache gives the series it gives without it, and leaves the
cache right.** -/
theorem run_keeping (hr : r ∈ runs) (htrusted : Trusted runs outcome dir r.start.files) :
    (r.result.1.2 = none ∧ r.resultWithout.1.2 = none ∧
        List.Forall₂ Snapshot.Same r.result.1.1 r.resultWithout.1.1) ∧
      Keeping runs outcome dir d r r.result.2 := by
  obtain ⟨hend, hsame, w', hw', hlast⟩ := (hfair r hr).run_same r.plan.cache
    (fun w hw => hw.ready) (fun w w' hw hstays => hw.stays hstays)
    (fun label hash hasks => sample_with hfree hfair hformed hr label hasks)
    ⟨(hfair r hr).ready, (hfair r hr).beside, htrusted⟩
  obtain ⟨hend', hsame', -⟩ := (hfair r hr).run_same none (fun w hw => hw)
    (fun w w' hw hstays => ⟨hstays.going, hw.scratch.confined hstays.confined⟩)
    (fun label hash hasks => (hfair r hr).sample_without hformed label hasks) (hfair r hr).ready
  refine ⟨⟨hend, hend', ?_⟩, ?_⟩
  · exact same_of_common hsame hsame'
  · -- removing the scratch directory is the last that is done in it
    obtain ⟨log, hclean⟩ := Action.discard_run r.plan.workDir r.plan.fields
      "Failed to remove snapshot scratch directory" w'
    have hstays : r.Stays w' (r.plan.cleanUp.run w').2 := by
      rw [cleanUp, hclean]
      refine ⟨hw'.ready.going, ?_⟩
      simp only [hw'.ready.scratch.removeAll_run]
      exact hw'.ready.scratch.confined_eraseBelow
    have hresult : r.result.2 = (r.plan.cleanUp.run w').2 := hlast
    rw [hresult]
    exact hw'.stays hstays

include hfree hfair hformed in
/-- The induction is on the runs that are left; the cache stays right for all of them. -/
theorem history_same {rest : List (CachedRun σ)} (hsub : ∀ r ∈ rest, r ∈ runs)
    (htrusted : Trusted runs outcome dir w.files) (hhistory : History dir w rest) :
    ∀ r ∈ rest, r.result.1.2 = none ∧ r.resultWithout.1.2 = none ∧
      List.Forall₂ Snapshot.Same r.result.1.1 r.resultWithout.1.1 := by
  induction rest generalizing w with
  | nil => simp
  | cons r rest ih =>
    obtain ⟨hnew, hrest⟩ := hhistory
    obtain ⟨hsame, hkeeping⟩ := run_keeping hfree hfair hformed (hsub r (by simp))
      (htrusted.of_nothingNew hnew)
    intro r' hr'
    rcases List.mem_cons.1 hr' with rfl | hr'
    · exact hsame
    · exact ih (fun x hx => hsub x (List.mem_cons_of_mem _ hx)) hkeeping.trusted hrest r' hr'

end Caching

end CachedRun

/-- **Runs that share a cache directory, which is empty at first, give the series that they give
without a cache: the same labels and commits in the same order, and the same measurements.**  The
documents that are measured come from texts, and the file names of different keys differ. -/
theorem history_transparent (runs : List (CachedRun σ)) (outcome : Outcome) (d : Place)
    (hempty : ∀ name n, Path.IsName name → shown? dir w.files name ≠ some n)
    (hhistory : History dir w runs) (hfair : ∀ r ∈ runs, r.Fair dir d outcome)
    (hparsed : ∀ framework hash subdir print doc,
      outcome framework hash subdir print = some doc → ∃ text, Document.parse text = .ok doc)
    (hfree : CollisionFree runs) :
    ∀ r ∈ runs, r.result.1.2 = none ∧ r.resultWithout.1.2 = none ∧
      List.Forall₂ Snapshot.Same r.result.1.1 r.resultWithout.1.1 := by
  have hformed : ∀ framework hash subdir print doc,
      outcome framework hash subdir print = some doc → doc.WellFormed :=
    fun framework hash subdir print doc hdoc =>
      (hparsed framework hash subdir print doc hdoc).elim fun _ => Document.wellFormed_of_parse
  exact CachedRun.history_same hfree hfair hformed (fun _ h => h) (trusted_of_empty hempty) hhistory

/-- A history of one commit with an empty tree, sampled in January, in July and in August.  The
analyzer gives one document at most, and counts its calls. -/
def onlyPlan (found : Option Document) : SeriesPlan Nat where
  framework := "fw"
  repository := {
    head := pure "a0"
    resolve := fun _ => pure "a0"
    commitsSince := fun _ => pure []
    commitsPerYear := pure []
    commitsPerMonth := pure []
    parent := fun _ => throw .noParent
    changedFiles := fun _ _ => pure []
    exportFull := fun _ dest w =>
      let (result, files) := (Files.resetDir dest).run w.files
      (result.mapError .file, { w with files })
    exportSparse := fun _ _ _ => pure 0 }
  measurer := {
    measureFull := fun _ w =>
      (found.elim (.error (.other "refused")) .ok, { w with outside := w.outside + 1 })
    measure := fun _ => pure .empty }
  anchor := Time.midnight 0 ⟨2024, 1, 1⟩
  now := Time.midnight 0 ⟨2024, 8, 15⟩
  subdir := []
  workDir := "/scratch"
  cache := some ({ dir := "/cache", ttl := 3600, enabled := true }, "v1")

/-- A run of the plan that starts in a given world. -/
def onlyRun (found : Option Document) (start : World Nat) : CachedRun Nat where
  plan := onlyPlan found
  hook := .none
  start := start
  cache := { dir := "/cache", ttl := 3600, enabled := true }
  fingerprint := "v1"
  scratch := ["scratch"]
  resolved _ := some "a0"
  newest := some "a0"

def onlyStart : World Nat where
  files := FileSystem.put {} ["cache"] .dir
  outside := 0

section Only

variable {found : Option Document} {start : World Nat}

theorem onlyPlan_dates (found : Option Document) : (onlyPlan found).dates.length = 2 := by cbv

theorem onlyRun_asks {hash : Text} (h : (onlyRun found start).Asks hash) : hash = "a0" := by
  rcases h with h | ⟨_, h⟩ <;> exact (Option.some.inj h).symm

theorem onlyRun_ready {start' w : World Nat} (h : (onlyRun found start).Ready w) :
    (onlyRun found start').Ready w := ⟨h.going, h.scratch⟩

theorem onlyRun_collisionFree (found : Option Document) {runs : List (CachedRun Nat)}
    (h : ∀ r ∈ runs, ∃ w, r = onlyRun found w) : CollisionFree runs := by
  intro r hr r' hr' hash hash' hasks hasks' _
  obtain ⟨w, rfl⟩ := h r hr
  obtain ⟨w', rfl⟩ := h r' hr'
  rw [onlyRun_asks hasks, onlyRun_asks hasks']
  rfl

theorem onlyRun_nothingNew (found : Option Document) (w : World Nat) :
    NothingNew "/cache" w.files (onlyRun found w).start.files :=
  .refl _ w.files

theorem onlyRun_measure (label hash : Text) (fields : LogFields) {w : World Nat}
    (hw : (onlyRun found start).Ready w) :
    (((onlyPlan found).measure label hash fields).run w).1 =
        found.map (Snapshot.ofDocument label hash) ∧
      (onlyRun found start).Stays w (((onlyPlan found).measure label hash fields).run w).2 := by
  refine ((onlyPlan found).measure_leads (I := fun w' => (onlyRun found start).Stays w w')
    (E := fun w' => (onlyRun found start).Stays w w' ∧
      w'.files.isDir (onlyPlan found).measuredDir = true)
    (R := fun s => s = found.map (Snapshot.ofDocument label hash))
    (fun w' l h => ⟨h.going, h.confined⟩) (.of_attempt fun w' hw' => ?_) (fun w' hw' hdir => ?_)
    (fun w' hw' => ?_) w ⟨hw.going, hw.scratch.sound.confined_refl _⟩).symm
  · obtain ⟨fs, hrun, hconfined, hempty, -⟩ := (hw.scratch.confined hw'.confined).resetDir_run
    have hexport : ((onlyPlan found).repository.exportFull hash (onlyPlan found).workDir).run w' =
        let (result, files) := (Files.resetDir (onlyRun found start).plan.workDir).run w'.files
        (result.mapError .file, { w' with files }) := rfl
    have hdir : (onlyPlan found).measuredDir = "/scratch" :=
      show Path.join [Text.ofString "/scratch", []] = _ by decide
    have hreach : fs.Reaches FileSystem.linkLimit [] ["scratch"] FileSystem.linkLimit ["scratch"] :=
      .down (by decide) (by decide) hempty.dir (.here _ _)
    have hthere : fs.isDir "/scratch" = true := FileSystem.isDir_iff.2
      ⟨by decide, _, _, hreach⟩
    rw [hexport, hrun, hdir]
    exact ⟨⟨hw'.going, hw'.confined.trans hconfined⟩, hthere⟩
  · simp [hw'.2] at hdir
  · refine ⟨⟨hw'.1.1.going, hw'.1.1.confined⟩, ?_⟩
    cases found <;> rfl

theorem onlyRun_fair (hready : (onlyRun found start).Ready start)
    (hbeside : Beside "/cache" ["cache"] ["scratch"] start.files) :
    (onlyRun found start).Fair "/cache" ["cache"] fun _ _ _ _ => found where
  cache := rfl
  directory := rfl
  framework := show Text.byte '|' ∉ Text.ofString "fw" by decide
  fingerprint := show Utf8.valid (Text.ofString "v1") = true by cbv
  commit hash hasks := by
    rw [onlyRun_asks hasks]
    decide
  ready := hready
  beside := hbeside
  resolve _ w hw := ⟨rfl, hw.going, hw.scratch.sound.confined_refl _⟩
  head w hw := ⟨rfl, hw.going, hw.scratch.sound.confined_refl _⟩
  measure label hash fields w hw _ := onlyRun_measure label hash fields hw
  hook _ _ _ w hw := ⟨hw.going, hw.scratch.sound.confined_refl _⟩

theorem onlyStart_ready (found : Option Document) : (onlyRun found onlyStart).Ready onlyStart :=
  have hsound := FileSystem.sound_empty.put (d := []) (c := "cache") rfl (by decide) .dir
  have hname : Path.IsName "scratch" := ⟨by decide, by decide, by decide, by decide⟩
  ⟨rfl, hsound.scratch_root hname (by decide)⟩

theorem onlyStart_beside : Beside "/cache" ["cache"] ["scratch"] onlyStart.files := by
  have hreach : (onlyStart.files.eraseBelow ["scratch"]).Reaches FileSystem.linkLimit [] ["cache"]
      FileSystem.linkLimit ["cache"] :=
    .down (by decide) (by decide) (by decide) (.here _ _)
  exact ⟨⟨_, hreach⟩, by decide, by decide⟩

theorem onlyStart_empty (name : Text) (n : FileNode) (hn : Path.IsName name) :
    shown? "/cache" onlyStart.files name ≠ some n := by
  rw [onlyStart_beside.leadsTo.shown? hn]
  rw [onlyStart, FileSystem.node?_put (by decide), if_neg (by simp)]
  exact Option.some_ne_none n |>.symm

end Only

/-- Two runs of one commit, the second in the world that the first one leaves: three samples each,
and the commit can be measured. -/
theorem history_transparent_twice :
    let found := (Document.parse
      "\x7b\"production\":\x7b\"loc\":5\x7d,\"testLoc\":2,\"hotspots\":[ 1, 2 ]\x7d").toOption
    let first := onlyRun found onlyStart
    let second := onlyRun found first.result.2
    found.isSome = true ∧ (onlyPlan found).dates.length = 2 ∧
      ∀ r ∈ [first, second], r.result.1.2 = none ∧ r.resultWithout.1.2 = none ∧
        List.Forall₂ Snapshot.Same r.result.1.1 r.resultWithout.1.1 := by
  refine ⟨by decide +kernel, onlyPlan_dates _, ?_⟩
  generalize hparse : Document.parse
    "\x7b\"production\":\x7b\"loc\":5\x7d,\"testLoc\":2,\"hotspots\":[ 1, 2 ]\x7d" = parsed
  have hparsed : ∀ doc, parsed.toOption = some doc → ∃ text, Document.parse text = .ok doc := by
    intro doc hdoc
    refine ⟨_, hparse.trans ?_⟩
    cases parsed <;> simp_all [Except.toOption]
  generalize parsed.toOption = found at hparsed ⊢
  have hfirst := onlyRun_fair (onlyStart_ready found) onlyStart_beside
  -- the first run leaves the world ready for the second one
  have hfree : CollisionFree [onlyRun found onlyStart] := onlyRun_collisionFree found (by simp)
  obtain ⟨-, hkept⟩ := CachedRun.run_keeping hfree (List.forall_mem_singleton.2 hfirst)
    (fun _ _ _ _ doc hdoc => (hparsed doc hdoc).elim fun _ => Document.wellFormed_of_parse)
    (List.mem_singleton.2 rfl) (trusted_of_empty onlyStart_empty)
  have hsecond := onlyRun_fair (onlyRun_ready hkept.ready) hkept.beside
  refine history_transparent _ (fun _ _ _ _ => found) ["cache"] onlyStart_empty
    ⟨onlyRun_nothingNew found _, onlyRun_nothingNew found _, trivial⟩ ?_
    (fun _ _ _ _ => hparsed) (onlyRun_collisionFree found ?_)
  · simpa using ⟨hfirst, hsecond⟩
  · simp

end SeriesPlan

end MetricHistory
