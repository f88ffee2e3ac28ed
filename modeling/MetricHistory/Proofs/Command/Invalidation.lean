import MetricHistory.Command.Actions
import MetricHistory.Proofs.Config.Layers
import MetricHistory.Proofs.Snapshot.Filling

/-!
# Removing commits from the cache

Entries of commits are removed by name: the command makes the keys of the commits anew, from the id
and the subdirectory that are configured.  Keys without collisions have one reading, whatever the
subdirectories are, so that no other entry has such a name.

* `Command.Invalidated` : the entries of commits of a framework are gone, and every other one is as
  it was;
* `Command.invalidateCommits_run` and `Command.cacheClear_run` : the command succeeds, and this is
  what it does;
* `Command.Invalidated.missed` and `Command.Invalidated.cached_eq` : what a plan finds afterwards;
* `Command.cacheClear_selective` : **after runs of any frameworks, the commits that are given are
  measured again for their framework, and everything else is found as before.**
-/

namespace MetricHistory

namespace Command

open Cache (Plain entryName isName_entryName keyOf shown?)
open SeriesPlan (Filled)

variable {s : Shell} {flags : FlagScope} {loaded : Config.Loaded} {f : Framework} {c : Cache}
  {dir : Text} {d : Place} {fs fs' : FileSystem} {commits : List Text} {hash : Text}

/-! ### The entries of commits -/

/-- The key of the entry of a commit. -/
def entryKey (f : Framework) (hash : Text) : Text := keyOf [f.id, hash, f.coreSubdir]

/-- The name of the entry of a commit. -/
def entryOf (f : Framework) (hash : Text) : Text := entryName (entryKey f hash)

/-- The entries of commits of a framework are gone, and every other one is as it was. -/
structure Invalidated (f : Framework) (commits : List Text) (dir : Text) (d : Place)
    (fs fs' : FileSystem) : Prop where
  plain : Plain dir d fs'
  clock : fs'.clock = fs.clock
  gone : ∀ hash ∈ commits, shown? dir fs' (entryOf f hash) = none
  kept : ∀ x, Path.IsName x → (∀ hash ∈ commits, x ≠ entryOf f hash) →
    shown? dir fs' x = shown? dir fs x

/-- What is not there does not come back. -/
theorem Invalidated.free {x : Text} (h : Invalidated f commits dir d fs fs') (hx : Path.IsName x)
    (hfree : shown? dir fs x = none) : shown? dir fs' x = none := by
  by_cases hlisted : ∃ hash ∈ commits, x = entryOf f hash
  · obtain ⟨hash, hmem, rfl⟩ := hlisted
    exact h.gone hash hmem
  · rw [h.kept x hx fun hash hmem hname => hlisted ⟨hash, hmem, hname⟩, hfree]

/-- Removing the entries of commits concerns these entries, in whatever order they are given and
however often.  The induction is on the commits. -/
theorem invalidateCommits_run (henabled : c.enabled = true) (h : Plain c.dir d fs)
    (f : Framework) (commits : List Text) :
    ∃ fs', (invalidateCommits c f commits).run fs = (.ok (), fs') ∧
      Invalidated f commits c.dir d fs fs' := by
  induction commits generalizing fs with
  | nil => exact ⟨fs, rfl, h, rfl, by simp, fun _ _ _ => rfl⟩
  | cons hash rest ih =>
    have hn : Path.IsName (entryOf f hash) := isName_entryName _
    obtain ⟨fs₁, hrun, hfirst⟩ := h.invalidate henabled (entryKey f hash)
    obtain ⟨fs', hrest, hlast⟩ := ih hfirst.plain
    have hshown : ∀ x, Path.IsName x →
        shown? c.dir fs₁ x = if x = entryOf f hash then none else shown? c.dir fs x := hfirst.shown
    refine ⟨fs', ?_, hlast.plain, hlast.clock.trans hfirst.clock, fun hash' hmem => ?gone,
      fun x hx hother => ?kept⟩
    · have hstep : (FileTask.during ("failed to invalidate " ++ hash)
          (FileTask.ofFiles (c.invalidate (entryKey f hash)))).run fs =
            (.ok (), fs₁) := by
        rw [FileTask.during_run, FileTask.ofFiles_run, hrun]
      exact (run_bind_ok hstep).trans hrest
    case gone =>
      rcases List.mem_cons.1 hmem with rfl | hin
      · exact hlast.free hn ((hshown _ hn).trans (if_pos rfl))
      · exact hlast.gone hash' hin
    case kept =>
      rw [hlast.kept x hx fun hash' hin => hother hash' (List.mem_cons_of_mem _ hin), hshown x hx,
        if_neg (hother hash List.mem_cons_self)]

theorem Invalidated.filled (h : Invalidated f commits dir d fs fs') (hfilled : Filled dir d fs) :
    Filled dir d fs' := by
  refine .later hfilled h.plain.sound h.plain.there h.plain.leads fun x n hx hshown => ?_
  by_contra hnew
  refine hnew ?_
  rw [← h.kept x hx fun hash hmem hname => ?_]
  · exact hshown
  · rw [hname, h.gone hash hmem] at hshown
    cases hshown

/-! ### The command -/

theorem onFiles_run_ok {α : Type} {task : FileTask α} {a : α} {files : FileSystem}
    (h : task.run s.world.files = (.ok a, files)) :
    (ShellTask.onFiles task).run s = (.ok a, { s with world := { s.world with files } }) := by
  change ShellTask.onFiles task s = _
  rw [ShellTask.onFiles, h]

theorem loadConfig_run {path : Text} {config : Config} (hpath : flags.text "config" = path)
    (hgiven : path ≠ []) (hdir : flags.text "project-dir" = [])
    (hload : (Config.load path).run s.world.files = (.ok config, s.world.files)) :
    (ShellTask.loadConfig flags).run s = (.ok { config, source := path }, s) := by
  have hfind : (Config.find path).run s.world.files =
      (.ok { config, source := path }, s.world.files) := by
    have hpath' : path.isEmpty = false := by simpa using hgiven
    simp only [Config.find, hpath', Bool.not_false, if_true]
    exact (run_bind_ok hload).trans rfl
  have hpath' : (flags.text "config").isEmpty = false := by simpa [hpath] using hgiven
  have hdir' : (flags.text "project-dir").isEmpty = true := by simp [hdir]
  simp only [ShellTask.loadConfig, hpath', hdir', if_true]
  rw [run_get_bind]
  simp only [hpath, Bool.false_eq_true, if_false]
  exact (run_bind_ok (onFiles_run_ok hfind)).trans rfl

/-- The directory of the cache that is configured. -/
def cacheDir (c : Config) : Text := c.paths.resolve c.cache.dir

/-- The cache that is configured, if it is used. -/
def cacheOf (c : Config) : Cache :=
  { dir := cacheDir c, ttl := Duration.times c.cache.ttlHours Duration.hour, enabled := true }

/-- Opening a cache whose directory is there changes nothing. -/
theorem configuredCache_run (hload : (ShellTask.loadConfig flags).run s = (.ok loaded, s))
    (henabled : loaded.config.cache.enabled = true)
    (h : Plain (cacheDir loaded.config) d s.world.files) :
    (configuredCache flags).run s =
      (.ok (loaded.config, cacheOf loaded.config, cacheDir loaded.config), s) := by
  have hcreate : (Cache.create (cacheDir loaded.config)
      (Duration.times loaded.config.cache.ttlHours Duration.hour) true).run s.world.files =
        (.ok (cacheOf loaded.config), s.world.files) := by
    change (Files.makeDirs (cacheDir loaded.config) >>= fun _ => _).run s.world.files = _
    rw [run_bind_ok (Files.makeDirs_of_isDir h.there)]
    rfl
  have hopen : (FileTask.during ("failed to open cache " ++ cacheDir loaded.config)
      (openCache loaded.config loaded.config.cache.enabled)).run s.world.files =
        (.ok (cacheOf loaded.config), s.world.files) := by
    rw [FileTask.during_run, openCache, FileTask.ofFiles_run, henabled]
    rw [show loaded.config.paths.resolve loaded.config.cache.dir = cacheDir loaded.config from rfl,
      hcreate]
  rw [configuredCache, run_bind_ok hload]
  exact (run_bind_ok (onFiles_run_ok hopen)).trans rfl

/-- What is said when the entries of commits were removed. -/
def invalidatedText (f : Framework) (commits : List Text) : Text :=
  Output.success false
    ("Invalidated " ++ Text.ofNat commits.length ++ " cached snapshot(s) of " ++ f.id)

theorem cacheClear_run (hload : (ShellTask.loadConfig flags).run s = (.ok loaded, s))
    (henabled : loaded.config.cache.enabled = true)
    (h : Plain (cacheDir loaded.config) d s.world.files) (hcommits : flags.texts "commit" ≠ [])
    (hid : flags.text "framework" ≠ [])
    (hf : loaded.config.framework? (flags.text "framework") = some f) :
    ∃ files, (cacheClear flags).run s =
        (.ok (), { s with
          world := { s.world with files }
          output := s.output ++ invalidatedText f (flags.texts "commit") }) ∧
      Invalidated f (flags.texts "commit") (cacheDir loaded.config) d s.world.files files := by
  obtain ⟨files, hrun, hgone⟩ :=
    invalidateCommits_run (c := cacheOf loaded.config) rfl h f (flags.texts "commit")
  refine ⟨files, ?_, hgone⟩
  rw [cacheClear, run_bind_ok (configuredCache_run hload henabled h)]
  simp only [cacheOf, Bool.not_true, Bool.false_eq_true, if_false]
  rw [if_neg (by simpa using hcommits), if_neg (by simpa using hid)]
  simp only [hf]
  exact (run_bind_ok (onFiles_run_ok hrun)).trans rfl

/-! ### What is found afterwards -/

section Lookups

variable {σ : Type} {p : SeriesPlan σ} {fingerprint : Text}

/-- The plan looks up a commit of the framework that is listed. -/
def Targets (f : Framework) (commits : List Text) (p : SeriesPlan σ) (hash : Text) : Prop :=
  p.framework = f.id ∧ p.subdir = f.coreSubdir ∧ hash ∈ commits

/-- A listed commit is not found, and so it is measured, as long as it has not been stored again. -/
theorem Invalidated.missed (h : Invalidated f commits dir d fs fs')
    (hcache : p.cache = some (c, fingerprint)) (hdir : c.dir = dir)
    (htarget : Targets f commits p hash) {w : World σ} (hplain : Plain dir d w.files)
    (hsame : shown? dir w.files (entryOf f hash) = shown? dir fs' (entryOf f hash)) :
    (p.cached (p.cacheKey hash)).run w = (none, w) := by
  subst hdir
  obtain ⟨hframework, hsubdir, hmem⟩ := htarget
  have hkey : p.cacheKey hash = entryKey f hash := by
    rw [SeriesPlan.cacheKey, hframework, hsubdir, entryKey]
  have hfree : shown? c.dir w.files (entryName (p.cacheKey hash)) = none := by
    rw [hkey]
    exact hsame.trans (h.gone hash hmem)
  rw [p.cached_run hcache, hplain.get_free hfree]
  rfl

/-- Every other commit is found as before: its entry is in another file. -/
theorem Invalidated.cached_eq (h : Invalidated f commits dir d fs fs') (hplain : Plain dir d fs)
    (hcache : p.cache = some (c, fingerprint)) (hdir : c.dir = dir)
    (hother : ¬ Targets f commits p hash) (hid : Text.byte '|' ∉ f.id)
    (hlisted : ∀ listed ∈ commits, Text.byte '|' ∉ listed)
    (hframework : Text.byte '|' ∉ p.framework) (hhash : Text.byte '|' ∉ hash)
    (hfree : ∀ listed ∈ commits,
      Blake3.hashHex (p.cacheKey hash) = Blake3.hashHex (entryKey f listed) →
        p.cacheKey hash = entryKey f listed) (w : World σ) (t : Time) :
    ((p.cached (p.cacheKey hash)).run { w with files := { fs' with clock := t } }).1 =
      ((p.cached (p.cacheKey hash)).run { w with files := { fs with clock := t } }).1 := by
  subst hdir
  have hname : ∀ listed ∈ commits, entryName (p.cacheKey hash) ≠ entryOf f listed := by
    intro listed hmem heq
    have hkey := hfree listed hmem (List.append_cancel_right heq)
    obtain ⟨hf, rfl, hsubdir⟩ :=
      SeriesPlan.keyOf_inj hframework hid hhash (hlisted listed hmem) hkey
    exact hother ⟨hf, hsubdir, hmem⟩
  have hn := isName_entryName (p.cacheKey hash)
  have hshown : shown? c.dir { fs' with clock := t } (entryName (p.cacheKey hash)) =
      shown? c.dir { fs with clock := t } (entryName (p.cacheKey hash)) := by
    rw [Cache.shown?_atTime h.plain.leads t hn, Cache.shown?_atTime hplain.leads t hn,
      h.kept _ hn hname]
  have hget : ((c.get (p.cacheKey hash) fingerprint).run { fs' with clock := t }).1 =
      ((c.get (p.cacheKey hash) fingerprint).run { fs with clock := t }).1 :=
    (hplain.atTime t).get_congr (h.plain.atTime t) rfl hshown
  rw [p.cached_run hcache, p.cached_run hcache]
  exact congrArg (·.bind Snapshot.parse?) hget

end Lookups

/-- **Removing commits of a framework from a cache that runs have filled concerns these commits
only.**  Afterwards a plan for the framework does not find a listed commit and measures it, as long
as the commit has not been stored again.  Any other lookup, be it of another commit, framework or
subdirectory, finds at any time what it would have found before.  Hashes of the keys are assumed not
to collide. -/
theorem cacheClear_selective (hload : (ShellTask.loadConfig flags).run s = (.ok loaded, s))
    (henabled : loaded.config.cache.enabled = true)
    (hfilled : Filled (cacheDir loaded.config) d s.world.files)
    (hcommits : flags.texts "commit" ≠ []) (hid : flags.text "framework" ≠ [])
    (hf : loaded.config.framework? (flags.text "framework") = some f)
    (hbar : Text.byte '|' ∉ f.id) (hlisted : ∀ hash ∈ flags.texts "commit", Text.byte '|' ∉ hash) :
    ∃ files, (cacheClear flags).run s =
        (.ok (), { s with
          world := { s.world with files }
          output := s.output ++ invalidatedText f (flags.texts "commit") }) ∧
      Filled (cacheDir loaded.config) d files ∧
      ∀ {σ : Type} (p : SeriesPlan σ) (c : Cache) (fingerprint hash : Text),
        p.cache = some (c, fingerprint) → c.dir = cacheDir loaded.config →
        (Targets f (flags.texts "commit") p hash → ∀ (w : World σ) (label : Text),
          Filled c.dir d w.files →
          shown? c.dir w.files (entryOf f hash) = shown? c.dir files (entryOf f hash) →
            (p.cached (p.cacheKey hash)).run w = (none, w) ∧
              (p.sample label hash).run w = (p.sampleAnew label hash).run w) ∧
        (¬ Targets f (flags.texts "commit") p hash → Text.byte '|' ∉ p.framework →
          Text.byte '|' ∉ hash →
          (∀ listed ∈ flags.texts "commit",
            Blake3.hashHex (p.cacheKey hash) = Blake3.hashHex (entryKey f listed) →
              p.cacheKey hash = entryKey f listed) →
          ∀ (w : World σ) (t : Time),
            ((p.cached (p.cacheKey hash)).run { w with files := { files with clock := t } }).1 =
              ((p.cached (p.cacheKey hash)).run
                { w with files := { s.world.files with clock := t } }).1) := by
  obtain ⟨files, hrun, hgone⟩ := cacheClear_run hload henabled hfilled.plain hcommits hid hf
  refine ⟨files, hrun, hgone.filled hfilled, fun p c fingerprint hash hcache hdir =>
    ⟨fun htarget w label hw hsame => ?_, fun hother hframework hhash hfree w t => ?_⟩⟩
  · rw [← hdir] at hgone
    have hmissed := hgone.missed hcache rfl htarget hw.plain hsame
    exact ⟨hmissed, p.sample_run_of_missed hmissed⟩
  · exact hgone.cached_eq hfilled.plain hcache hdir hother hbar hlisted hframework hhash hfree w t

/-! ### A cache that is shared by two frameworks -/

/-- The configuration is the stock one, but for the place of the cache. -/
def sharedText : Text := "\x7b\"cache\":\x7b\"dir\":\"/cache\"\x7d\x7d"

def sharedConfig : Config :=
  { Config.default with cache := { Config.default.cache with dir := "/cache" } }

def sharedFlags : FlagScope :=
  [{ flags :=
      [{ name := "framework", kind := .text }, { name := "commit", kind := .texts },
        { name := "config", kind := .text }]
     given := [("framework", "drupal"), ("commit", "a0"), ("config", "/c.json")] }]

def sharedStart : World Nat where
  files := (({} : FileSystem).put ["cache"] .dir).put ["c.json"] (.file 0o644 sharedText Time.zero)
  outside := 0

def sharedEntries : Config.Entries := [("cache", .table [("dir", .text "/cache")])]

theorem ofText_shared : Config.ofText "/c.json" sharedText = .ok sharedConfig := by
  have hparse : (Config.formatOf "/c.json").parse? sharedText = some sharedEntries := by cbv
  have hoverlay : Config.overlay? Config.default sharedEntries = some sharedConfig := by
    decide +kernel
  have hids : sharedConfig.frameworkIds = ["drupal", "typo3"] :=
    List.mergeSort_of_pairwise (by decide)
  have hvalid : sharedConfig.problems = [] := by
    rw [Config.problems, Config.frameworkProblems, hids]
    decide +kernel
  rw [Config.ofText, hparse]
  simp only [Config.ofEntries_of_overlay? hoverlay, hvalid, if_true]

theorem onlyPlan_tidy (found : Option Document) :
    (SeriesPlan.onlyPlan found).Tidy .none ["scratch"] where
  resolve _ _ hw := hw.sound.confined_refl _
  head _ hw := hw.sound.confined_refl _
  exportFull hash w hw := by
    obtain ⟨fs, hrun, hconfined, -⟩ := hw.resetDir_run
    have hexport : ((SeriesPlan.onlyPlan found).repository.exportFull hash
        (SeriesPlan.onlyPlan found).workDir).run w =
          (((Files.resetDir (SeriesPlan.onlyPlan found).workDir).run w.files).1.mapError .file,
            { w with
              files := ((Files.resetDir (SeriesPlan.onlyPlan found).workDir).run w.files).2 }) :=
      rfl
    rw [hexport, hrun]
    exact hconfined
  measureFull _ hw := hw.sound.confined_refl _
  hook _ _ _ _ hw := hw.sound.confined_refl _

theorem sharedStart_filling (found : Option Document) :
    Filled "/cache" ["cache"] sharedStart.files ∧
      (SeriesPlan.onlyPlan found).Filling "/cache" ["cache"] ["scratch"] sharedStart.files
        sharedStart := by
  have hcache : (({} : FileSystem).put ["cache"] .dir).Sound :=
    FileSystem.sound_empty.put (d := []) rfl (by decide) .dir
  have hsound : sharedStart.files.Sound := hcache.put (d := []) rfl (by decide) _
  have hname : Path.IsName "scratch" := ⟨by decide, by decide, by decide, by decide⟩
  have hreach : (sharedStart.files.eraseBelow ["scratch"]).Reaches FileSystem.linkLimit [] ["cache"]
      FileSystem.linkLimit ["cache"] :=
    .down (by decide) (by decide) (by decide) (.here _ _)
  have hbeside : Cache.Beside "/cache" ["cache"] ["scratch"] sharedStart.files :=
    ⟨⟨_, hreach⟩, by decide, by decide⟩
  have haround : (sharedStart.files.eraseBelow ["scratch"]).isDir "/cache" = true :=
    FileSystem.isDir_iff.2 ⟨by decide, _, _, hreach⟩
  have hthere : sharedStart.files.isDir "/cache" = true :=
    (FileSystem.Keeps.of_node? fun _ _ =>
      (FileSystem.shrinks_eraseBelow sharedStart.files ["scratch"]).node).isDir rfl haround
  have hfilled : Filled "/cache" ["cache"] sharedStart.files := by
    refine .empty hsound hthere hbeside.leadsTo fun name n hn => ?_
    rw [hbeside.leadsTo.shown? hn, sharedStart, FileSystem.node?_put (by decide),
      if_neg (by simp), FileSystem.node?_put (by decide), if_neg (by simp)]
    exact Option.some_ne_none n |>.symm
  exact ⟨hfilled, hfilled.plain, hsound.scratch_root hname (by decide), hbeside, haround,
    fun _ _ _ _ => rfl⟩

/-- A run for the framework `fw` that samples the commit `a0` fills the cache, and leaves the
configuration file alone. -/
theorem exists_sharedRun (found : Option Document) : ∃ files,
    (((SeriesPlan.onlyPlan found).run .none).run sharedStart).2.files = files ∧
      Filled "/cache" ["cache"] files ∧
      files.node? ["c.json"] = some (.file 0o644 sharedText Time.zero) := by
  obtain ⟨hfilled, hfilling⟩ := sharedStart_filling found
  have hrun := (onlyPlan_tidy found).run_filling rfl rfl hfilling
  exact ⟨_, rfl, .run hfilled (onlyPlan_tidy found) rfl rfl hfilling.scratch hfilling.beside
    hfilling.around, hrun.elsewhere ["c.json"] (by simp) (by decide) (by decide)⟩

theorem loadConfig_shared {files : FileSystem}
    (h : files.node? ["c.json"] = some (.file 0o644 sharedText Time.zero)) :
    (ShellTask.loadConfig sharedFlags).run { world := { files, outside := {} } } =
      (.ok { config := sharedConfig, source := "/c.json" },
        { world := { files, outside := {} } }) := by
  have hread : (Files.read (Path.clean "/c.json")).run files = (.ok sharedText, files) := by
    have hclean : Path.clean "/c.json" = "/c.json" := by decide
    have hwalk : files.locate true "/c.json" =
        files.walk true FileSystem.linkLimit [] [Text.ofString "c.json"] := rfl
    have hfind : files.find true "/c.json" =
        .ok ([Text.ofString "c.json"], .file 0o644 sharedText Time.zero) := by
      rw [FileSystem.find, hwalk, FileSystem.walk_name (by decide) (by decide), List.nil_append, h]
    rw [hclean, Cache.read_run, hfind]
  refine loadConfig_run (by decide) (by decide) (by decide) ?_
  rw [Config.load_run hread, ofText_shared]
  rfl

/-- The stock framework of the id that the flags give. -/
def sharedFramework : Framework := { FrameworkRecord.drupal with id := "drupal" }

def sharedDocument : Option Document :=
  (Document.parse "\x7b\"production\":\x7b\"loc\":5\x7d\x7d").toOption

/-- A plan for the framework that the flags give. -/
def sharedPlan : SeriesPlan Nat :=
  { SeriesPlan.onlyPlan sharedDocument with framework := "drupal", subdir := "core" }

/-- The commit `a0` is removed for one framework.  It has been sampled for another one, whose entry
stays. -/
theorem cacheClear_selective_shared :
    let other := SeriesPlan.onlyPlan sharedDocument
    let filled := ((other.run .none).run sharedStart).2.files
    let s : Shell := { world := { files := filled, outside := {} } }
    sharedDocument.isSome = true ∧ Filled "/cache" ["cache"] filled ∧
      (ShellTask.loadConfig sharedFlags).run s =
        (.ok { config := sharedConfig, source := "/c.json" }, s) ∧
      ∃ files, (cacheClear sharedFlags).run s = (.ok (), { s with
          world := { s.world with files }
          output := invalidatedText sharedFramework [Text.ofString "a0"] }) ∧
        (sharedPlan.sample "2024-01" "a0").run { sharedStart with files } =
          (sharedPlan.sampleAnew "2024-01" "a0").run { sharedStart with files } ∧
        ((other.cached (other.cacheKey "a0")).run
            { sharedStart with files := { files with clock := Time.zero } }).1 =
          ((other.cached (other.cacheKey "a0")).run
            { sharedStart with files := { filled with clock := Time.zero } }).1 := by
  intro other filled s
  obtain ⟨files₀, hrun, hfilled, hconfig⟩ := exists_sharedRun sharedDocument
  have hsame : filled = files₀ := hrun
  clear_value filled
  subst hsame
  have hload := loadConfig_shared hconfig
  have hdir : cacheDir sharedConfig = "/cache" := by decide
  have hcommits : sharedFlags.texts "commit" = [Text.ofString "a0"] := by decide +kernel
  have hframework : sharedConfig.framework? (sharedFlags.text "framework") =
      some sharedFramework := by decide +kernel
  obtain ⟨files, hcleared, hstill, hlookups⟩ :=
    cacheClear_selective hload (by decide) (hdir ▸ hfilled) (by simp [hcommits]) (by decide)
      hframework (by decide) (by rw [hcommits]; decide)
  rw [hcommits] at hcleared hlookups
  refine ⟨by decide +kernel, hfilled, hload, files, hcleared, ?_, ?_⟩
  · have htarget : Targets sharedFramework [Text.ofString "a0"] sharedPlan "a0" :=
      ⟨rfl, rfl, by simp⟩
    exact ((hlookups sharedPlan _ _ "a0" rfl hdir.symm).1 htarget { sharedStart with files }
      "2024-01" (hdir ▸ hstill) rfl).2
  · have hother : ¬ Targets sharedFramework [Text.ofString "a0"] other "a0" := fun h =>
      absurd h.1 (show Text.ofString "fw" ≠ Text.ofString "drupal" by decide)
    refine (hlookups other _ _ "a0" rfl hdir.symm).2 hother
      (show Text.byte '|' ∉ Text.ofString "fw" by decide) (by decide) ?_ sharedStart Time.zero
    intro listed hlisted heq
    rw [List.mem_singleton.1 hlisted] at heq
    have hhash : Blake3.hashHex (Cache.keyOf [Text.ofString "fw", Text.ofString "a0", []]) ≠
        Blake3.hashHex (entryKey sharedFramework (Text.ofString "a0")) := by decide +kernel
    exact absurd heq hhash

end Command

end MetricHistory
