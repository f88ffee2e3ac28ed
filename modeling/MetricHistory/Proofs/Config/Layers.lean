import MetricHistory.Config.Search
import MetricHistory.Proofs.Action
import MetricHistory.Proofs.Config.Given
import MetricHistory.Proofs.Config.Validity

/-!
# A settings file lies over the stock configuration

Sections are read in place, each key over its stock value.  A framework is read into an empty
record, and what is empty in it is filled from the stock framework of the same id afterwards.
Either way one rule comes out of it: what the file gives counts, and everything else is as in the
stock configuration.

* `Config.Typed` : the keys of a settings tree are spelled exactly, and its values are of the types
  of their fields, or empty.
* `Config.Layered` : what the configuration of a tree is like, field by field.
* `Config.overlay?_layered` : a typed tree is read, and layered.
* `Config.load_layered` : **a file with a typed tree is loaded exactly if the layered configuration
  has no problems, and then gives that configuration.**
-/

namespace MetricHistory

open Setting (given? sectionOf text? int? bool? texts? table? Fields Fits FitsSection Spells)
open Config (Entries)

/-! ### Sections -/

section Sections

variable {es : Entries}

namespace Paths

/-- The keys of the section. -/
def fields : Fields :=
  [("project_dir", .text), ("output_dir", .text), ("data_dir", .text), ("scripts_dir", .text)]

/-- Each place as it is given, else as it was. -/
def lay (start : Paths) (es : Entries) : Paths where
  projectDir := (given? text? "project_dir" es).getD start.projectDir
  outputDir := (given? text? "output_dir" es).getD start.outputDir
  dataDir := (given? text? "data_dir" es).getD start.dataDir
  scriptsDir := (given? text? "scripts_dir" es).getD start.scriptsDir

end Paths

namespace GitSettings

/-- The keys of the section. -/
def fields : Fields :=
  [("binary", .text), ("command_timeout_minutes", .int), ("archive_timeout_minutes", .int)]

/-- Each setting as it is given, else as it was. -/
def lay (start : GitSettings) (es : Entries) : GitSettings where
  binary := (given? text? "binary" es).getD start.binary
  commandTimeoutMinutes :=
    (given? int? "command_timeout_minutes" es).getD start.commandTimeoutMinutes
  archiveTimeoutMinutes :=
    (given? int? "archive_timeout_minutes" es).getD start.archiveTimeoutMinutes

end GitSettings

namespace AnalyzerSettings

/-- The keys of the section. -/
def fields : Fields :=
  [("binary", .text), ("delta_memory_limit", .text), ("full_memory_limit", .text),
    ("delta_timeout_seconds", .int), ("full_timeout_seconds", .int)]

/-- Each setting as it is given, else as it was. -/
def lay (start : AnalyzerSettings) (es : Entries) : AnalyzerSettings where
  binary := (given? text? "binary" es).getD start.binary
  deltaMemoryLimit := (given? text? "delta_memory_limit" es).getD start.deltaMemoryLimit
  fullMemoryLimit := (given? text? "full_memory_limit" es).getD start.fullMemoryLimit
  deltaTimeoutSeconds := (given? int? "delta_timeout_seconds" es).getD start.deltaTimeoutSeconds
  fullTimeoutSeconds := (given? int? "full_timeout_seconds" es).getD start.fullTimeoutSeconds

end AnalyzerSettings

namespace HistorySettings

/-- The keys of the section. -/
def fields : Fields := [("interval_months", .int), ("recent_days", .int), ("target_commits", .int)]

/-- Each setting as it is given, else as it was. -/
def lay (start : HistorySettings) (es : Entries) : HistorySettings where
  intervalMonths := (given? int? "interval_months" es).getD start.intervalMonths
  recentDays := (given? int? "recent_days" es).getD start.recentDays
  targetCommits := (given? int? "target_commits" es).getD start.targetCommits

end HistorySettings

namespace CacheSettings

/-- The keys of the section. -/
def fields : Fields := [("enabled", .bool), ("dir", .text), ("ttl_hours", .int)]

/-- Each setting as it is given, else as it was. -/
def lay (start : CacheSettings) (es : Entries) : CacheSettings where
  enabled := (given? bool? "enabled" es).getD start.enabled
  dir := (given? text? "dir" es).getD start.dir
  ttlHours := (given? int? "ttl_hours" es).getD start.ttlHours

end CacheSettings

namespace FrameworkRecord

/-- The keys of a framework. -/
def fields : Fields :=
  [("name", .text), ("repo_url", .text), ("start_date", .text), ("analyzer", .text),
    ("core_subdir", .text), ("extensions", .texts)]

/-- Each field as it is given and not empty, else as in the base. -/
def lay (base : FrameworkRecord) (es : Entries) : FrameworkRecord :=
  let textOr (key : String) (stock : Text) : Text :=
    ((given? text? (Text.ofString key) es).filter fun t => !t.isEmpty).getD stock
  { name := textOr "name" base.name
    repoUrl := textOr "repo_url" base.repoUrl
    startDate := textOr "start_date" base.startDate
    analyzer := textOr "analyzer" base.analyzer
    coreSubdir := textOr "core_subdir" base.coreSubdir
    extensions :=
      ((given? texts? "extensions" es).filter fun ts => !ts.isEmpty).getD base.extensions }

end FrameworkRecord

namespace Setting

variable {fields : Fields}

/-- A field of a section is read as it is given. -/
theorem Fits.read {α : Type} {read : α → Setting → Option α} {value? : Setting → Option α}
    {kind : Kind} {key : String} {start : α} (h : Fits fields es) (hkey : (key, kind) ∈ fields)
    (hread : ∀ s, kind.Admits s → read start s = some ((value? s).getD start)) :
    readField read (Text.ofString key) start es =
      some ((given? value? (Text.ofString key) es).getD start) :=
  readField_of_spells hread (h (key, kind) hkey)

theorem Fits.text (h : Fits fields es) (key : String) (hkey : (key, Kind.text) ∈ fields)
    (start : Text) :
    readField readText (Text.ofString key) start es =
      some ((given? text? (Text.ofString key) es).getD start) :=
  h.read hkey fun _ hs => readText_of_admits hs start

theorem Fits.int (h : Fits fields es) (key : String) (hkey : (key, Kind.int) ∈ fields)
    (start : Int) :
    readField readInt (Text.ofString key) start es =
      some ((given? int? (Text.ofString key) es).getD start) :=
  h.read hkey fun _ hs => readInt_of_admits hs start

theorem Fits.bool (h : Fits fields es) (key : String) (hkey : (key, Kind.bool) ∈ fields)
    (start : Bool) :
    readField readBool (Text.ofString key) start es =
      some ((given? bool? (Text.ofString key) es).getD start) :=
  h.read hkey fun _ hs => readBool_of_admits hs start

theorem Fits.texts (h : Fits fields es) (key : String) (hkey : (key, Kind.texts) ∈ fields)
    (start : List Text) :
    readField readTexts (Text.ofString key) start es =
      some ((given? texts? (Text.ofString key) es).getD start) :=
  h.read hkey fun _ hs => readTexts_of_admits hs start

end Setting

namespace Config

theorem readPaths_lay (start : Paths) (h : Fits Paths.fields es) :
    readPaths start es = some (start.lay es) := by
  have hp := h.text "project_dir" (by decide) start.projectDir
  have ho := h.text "output_dir" (by decide) start.outputDir
  have hd := h.text "data_dir" (by decide) start.dataDir
  have hs := h.text "scripts_dir" (by decide) start.scriptsDir
  rw [readPaths, hp, ho, hd, hs]
  rfl

theorem readGit_lay (start : GitSettings) (h : Fits GitSettings.fields es) :
    readGit start es = some (start.lay es) := by
  have hb := h.text "binary" (by decide) start.binary
  have hc := h.int "command_timeout_minutes" (by decide) start.commandTimeoutMinutes
  have ha := h.int "archive_timeout_minutes" (by decide) start.archiveTimeoutMinutes
  rw [readGit, hb, hc, ha]
  rfl

theorem readAnalyzer_lay (start : AnalyzerSettings) (h : Fits AnalyzerSettings.fields es) :
    readAnalyzer start es = some (start.lay es) := by
  have hb := h.text "binary" (by decide) start.binary
  have hd := h.text "delta_memory_limit" (by decide) start.deltaMemoryLimit
  have hf := h.text "full_memory_limit" (by decide) start.fullMemoryLimit
  have hdt := h.int "delta_timeout_seconds" (by decide) start.deltaTimeoutSeconds
  have hft := h.int "full_timeout_seconds" (by decide) start.fullTimeoutSeconds
  rw [readAnalyzer, hb, hd, hf, hdt, hft]
  rfl

theorem readHistory_lay (start : HistorySettings) (h : Fits HistorySettings.fields es) :
    readHistory start es = some (start.lay es) := by
  have hi := h.int "interval_months" (by decide) start.intervalMonths
  have hr := h.int "recent_days" (by decide) start.recentDays
  have ht := h.int "target_commits" (by decide) start.targetCommits
  rw [readHistory, hi, hr, ht]
  rfl

theorem readCache_lay (start : CacheSettings) (h : Fits CacheSettings.fields es) :
    readCache start es = some (start.lay es) := by
  have he := h.bool "enabled" (by decide) start.enabled
  have hd := h.text "dir" (by decide) start.dir
  have ht := h.int "ttl_hours" (by decide) start.ttlHours
  rw [readCache, he, hd, ht]
  rfl

end Config

end Sections

/-! ### Frameworks -/

namespace FrameworkRecord

variable {es : Entries}

theorem readFramework_lay (h : Fits fields es) : Config.readFramework es = some (lay {} es) := by
  have hn := h.text "name" (by decide) []
  have hr := h.text "repo_url" (by decide) []
  have hs := h.text "start_date" (by decide) []
  have ha := h.text "analyzer" (by decide) []
  have hc := h.text "core_subdir" (by decide) []
  have he := h.texts "extensions" (by decide) []
  have hempty : ∀ {β : Type} (x : Option (List β)),
      x.getD [] = (x.filter fun t => !t.isEmpty).getD [] := by
    intro β x
    rcases x with _ | _ | _ <;> rfl
  rw [Config.readFramework, hn, hr, hs, ha, hc, he]
  refine congrArg some (FrameworkRecord.mk.injEq .. |>.mpr ?_)
  exact ⟨hempty _, hempty _, hempty _, hempty _, hempty _, hempty _⟩

theorem lay_withDefaults (base : FrameworkRecord) (es : Entries) :
    (lay {} es).withDefaults base = base.lay es := by
  have hfill : ∀ {β : Type} (x : Option (List β)) (stock : List β),
      (if ((x.filter fun t => !t.isEmpty).getD []).isEmpty then stock
        else (x.filter fun t => !t.isEmpty).getD []) =
        (x.filter fun t => !t.isEmpty).getD stock := by
    intro β x stock
    rcases x with _ | _ | _ <;> rfl
  refine FrameworkRecord.mk.injEq .. |>.mpr ?_
  exact ⟨hfill _ _, hfill _ _, hfill _ _, hfill _ _, hfill _ _, hfill _ _⟩

theorem withDefaults_self (r : FrameworkRecord) : r.withDefaults r = r := by
  simp only [withDefaults, ite_self]

end FrameworkRecord

namespace Config

variable {es : Entries} {frameworks : List (Text × FrameworkRecord)} {id : Text}

/-- The value is a table of frameworks, or empty. -/
def FitsFrameworks : Setting → Prop
  | .null => True
  | .table es => ∀ x ∈ es, FitsSection FrameworkRecord.fields x.2
  | _ => False

/-- What a file gives for a framework, if it mentions it.  Should an id come again, the last entry
counts. -/
def givenFramework? (id : Text) (es : Entries) : Option Entries :=
  ((sectionOf "frameworks" es).reverse.lookup id).map fun s => s.table?.getD []

theorem lookup_setFramework (frameworks : List (Text × FrameworkRecord)) (id : Text)
    (r : FrameworkRecord) (k : Text) :
    (setFramework frameworks id r).lookup k = if k = id then some r else frameworks.lookup k := by
  induction frameworks with
  | nil => exact Text.lookup_cons _ _ _
  | cons x rest ih =>
    rw [setFramework]
    by_cases hid : x.1 = id
    · rw [if_pos hid, Text.lookup_cons, Text.lookup_cons, hid]
      split <;> rfl
    · rw [if_neg hid, Text.lookup_cons, Text.lookup_cons, ih]
      split_ifs with hk hk'
      · exact absurd (hk.symm.trans hk') hid
      · rfl
      · rfl
      · rfl

theorem setFramework_nodup (h : (frameworks.map (·.1)).Nodup) (id : Text) (r : FrameworkRecord) :
    ((setFramework frameworks id r).map (·.1)).Nodup ∧
      ∀ k, k ∈ (setFramework frameworks id r).map (·.1) ↔ k = id ∨ k ∈ frameworks.map (·.1) := by
  induction frameworks with
  | nil => simp [setFramework]
  | cons x rest ih =>
    rw [List.map_cons, List.nodup_cons] at h
    obtain ⟨hnodup, hmem⟩ := ih h.2
    rw [setFramework]
    by_cases hid : x.1 = id
    · rw [if_pos hid]
      refine ⟨by rw [List.map_cons, List.nodup_cons]; exact h, fun k => ?_⟩
      simp [hid]
    · rw [if_neg hid, List.map_cons, List.nodup_cons]
      refine ⟨⟨fun hx => ?_, hnodup⟩, fun k => ?_⟩
      · exact ((hmem x.1).1 hx).elim hid h.1
      · rw [List.mem_cons, hmem, List.map_cons, List.mem_cons]
        tauto

/-- The frameworks of a table are added in order, each under its id. -/
theorem exists_addFrameworks (h : ∀ x ∈ es, FitsSection FrameworkRecord.fields x.2)
    (hnodup : (frameworks.map (·.1)).Nodup) :
    ∃ all, addFrameworks frameworks es = some all ∧ (all.map (·.1)).Nodup ∧
      ∀ id, all.lookup id =
        ((es.reverse.lookup id).map fun s => FrameworkRecord.lay {} (s.table?.getD [])).or
          (frameworks.lookup id) := by
  induction es generalizing frameworks with
  | nil => exact ⟨frameworks, rfl, hnodup, fun id => rfl⟩
  | cons x rest ih =>
    obtain ⟨k, s⟩ := x
    have hs : FitsSection FrameworkRecord.fields s := h (k, s) (by simp)
    obtain ⟨hentries, hfits⟩ := hs.entries
    have hread := FrameworkRecord.readFramework_lay hfits
    obtain ⟨all, hall, hids, hlookup⟩ := ih (fun y hy => h y (by simp [hy]))
      (setFramework_nodup hnodup k (FrameworkRecord.lay {} (s.table?.getD []))).1
    refine ⟨all, ?_, hids, fun id => ?_⟩
    · rw [addFrameworks, List.foldlM_cons]
      simp only [hentries, Option.bind_some, hread]
      exact hall
    · rw [hlookup, lookup_setFramework, List.reverse_cons, List.lookup_append, Text.lookup_cons]
      by_cases hk : id = k
      · cases rest.reverse.lookup id <;> simp [hk]
      · cases rest.reverse.lookup id <;> simp [hk]

theorem exists_readFrameworks (h : Spells "frameworks" FitsFrameworks es)
    (hnodup : (frameworks.map (·.1)).Nodup) :
    ∃ all, Setting.readField readFrameworks "frameworks" frameworks es = some all ∧
      (all.map (·.1)).Nodup ∧
      ∀ id, all.lookup id =
        ((givenFramework? id es).map (FrameworkRecord.lay {})).or (frameworks.lookup id) := by
  obtain ⟨hentry, hvalue⟩ := h.entry?
  simp only [Setting.readField, hentry, givenFramework?, sectionOf, given?, Option.map_map]
  cases hs : es.lookup (Text.ofString "frameworks") with
  | none => exact ⟨frameworks, rfl, hnodup, fun id => rfl⟩
  | some s =>
    have hfits : FitsFrameworks s := hvalue s hs
    cases s with
    | null => exact ⟨frameworks, by simp only [readFrameworks], hnodup, fun id => rfl⟩
    | table inner =>
      obtain ⟨all, hall, hids, hlookup⟩ := exists_addFrameworks hfits hnodup
      exact ⟨all, by simp only [readFrameworks, hall], hids, hlookup⟩
    | _ => exact hfits.elim

theorem isSome_givenFramework? :
    (givenFramework? id es).isSome ↔ id ∈ (sectionOf "frameworks" es).map (·.1) := by
  rw [givenFramework?, Option.isSome_map, ← Text.mem_keys_iff, List.map_reverse, List.mem_reverse]

theorem fillStock_fst (x : Text × FrameworkRecord) : (fillStock x).1 = x.1 := by
  rw [fillStock]
  split <;> rfl

theorem lookup_map_fillStock (id : Text) (frameworks : List (Text × FrameworkRecord)) :
    (frameworks.map fillStock).lookup id =
      (frameworks.lookup id).map fun r => (fillStock (id, r)).2 := by
  induction frameworks with
  | nil => rfl
  | cons x rest ih =>
    rw [List.map_cons, Text.lookup_cons, Text.lookup_cons, fillStock_fst, ih]
    by_cases hid : id = x.1
    · rw [if_pos hid, if_pos hid, hid, Option.map_some]
    · rw [if_neg hid, if_neg hid]

theorem map_fillStock_fst (frameworks : List (Text × FrameworkRecord)) :
    (frameworks.map fillStock).map (·.1) = frameworks.map (·.1) := by
  rw [List.map_map]
  exact List.map_congr_left fun x _ => fillStock_fst x

end Config

/-! ### The whole -/

namespace Config

variable {es : Entries}

/-- The keys of a settings tree are spelled exactly, and each value is of the type of its field, or
empty.  Keys that are no settings may be there. -/
structure Typed (es : Entries) : Prop where
  frameworks : Spells "frameworks" FitsFrameworks es
  paths : Spells "paths" (FitsSection Paths.fields) es
  git : Spells "git" (FitsSection GitSettings.fields) es
  analyzer : Spells "analyzer" (FitsSection AnalyzerSettings.fields) es
  history : Spells "history" (FitsSection HistorySettings.fields) es
  cache : Spells "cache" (FitsSection CacheSettings.fields) es

/-- A configuration is the stock configuration with what a settings tree gives. -/
structure Layered (es : Entries) (c : Config) : Prop where
  paths : c.paths = default.paths.lay (sectionOf "paths" es)
  git : c.git = default.git.lay (sectionOf "git" es)
  analyzer : c.analyzer = default.analyzer.lay (sectionOf "analyzer" es)
  history : c.history = default.history.lay (sectionOf "history" es)
  cache : c.cache = default.cache.lay (sectionOf "cache" es)
  /-- No framework is there twice. -/
  nodup : c.frameworkIds.Nodup
  /-- The frameworks are those of the stock and those of the tree. -/
  mem_ids : ∀ id, id ∈ c.frameworkIds ↔
    id ∈ default.frameworkIds ∨ id ∈ (sectionOf "frameworks" es).map (·.1)
  /-- A stock framework has the fields that are given and not empty, and its own otherwise. -/
  stock : ∀ id base given, default.frameworks.lookup id = some base →
    givenFramework? id es = some given → c.frameworks.lookup id = some (base.lay given)
  /-- Any other framework has the fields that are given and no others. -/
  other : ∀ id given, default.frameworks.lookup id = none →
    givenFramework? id es = some given →
    c.frameworks.lookup id = some (FrameworkRecord.lay {} given)
  /-- A framework that is not mentioned is a stock framework. -/
  unmentioned : ∀ id, givenFramework? id es = none →
    c.frameworks.lookup id = default.frameworks.lookup id

/-- A typed tree is read, and what comes out is layered. -/
theorem overlay?_layered (h : Typed es) : ∃ c, overlay? default es = some c ∧ Layered es c := by
  have hstock : (default.frameworks.map (·.1)).Nodup := by decide
  obtain ⟨all, hall, hnodup, hlookup⟩ := exists_readFrameworks h.frameworks hstock
  have hpaths := Setting.readSection_of_spells (fun es => readPaths_lay default.paths) rfl h.paths
  have hgit := Setting.readSection_of_spells (fun es => readGit_lay default.git) rfl h.git
  have hanalyzer :=
    Setting.readSection_of_spells (fun es => readAnalyzer_lay default.analyzer) rfl h.analyzer
  have hhistory :=
    Setting.readSection_of_spells (fun es => readHistory_lay default.history) rfl h.history
  have hcache := Setting.readSection_of_spells (fun es => readCache_lay default.cache) rfl h.cache
  refine ⟨_, by
    rw [overlay?, hall, hpaths, hgit, hanalyzer, hhistory, hcache]
    rfl, ?_⟩
  have hids : ∀ id, (all.map fillStock).lookup id =
      (((givenFramework? id es).map (FrameworkRecord.lay {})).or
        (default.frameworks.lookup id)).map fun r => (fillStock (id, r)).2 := fun id => by
    rw [lookup_map_fillStock, hlookup]
  refine {
    paths := rfl, git := rfl, analyzer := rfl, history := rfl, cache := rfl
    nodup := ?nodup
    mem_ids := fun id => ?mem_ids
    stock := fun id base given hbase hgiven => ?stock
    other := fun id given hbase hgiven => ?other
    unmentioned := fun id hgiven => ?unmentioned }
  case nodup =>
    rw [frameworkIds, Text.sort, (List.mergeSort_perm _ _).nodup_iff, map_fillStock_fst]
    exact hnodup
  case mem_ids =>
    rw [mem_frameworkIds, mem_frameworkIds, map_fillStock_fst, Text.mem_keys_iff,
      Text.mem_keys_iff, hlookup, Option.isSome_or, Option.isSome_map, Bool.or_eq_true,
      isSome_givenFramework?, or_comm]
  case stock =>
    rw [hids, hgiven, Option.map_some, Option.some_or, Option.map_some, fillStock]
    simp only [show stockFrameworks.lookup id = some base from hbase,
      FrameworkRecord.lay_withDefaults]
  case other =>
    rw [hids, hgiven, Option.map_some, Option.some_or, Option.map_some, fillStock]
    simp only [show stockFrameworks.lookup id = none from hbase]
  case unmentioned =>
    rw [hids, hgiven, Option.map_none, Option.none_or]
    cases hbase : default.frameworks.lookup id with
    | none => rfl
    | some base =>
      rw [Option.map_some, fillStock]
      simp only [show stockFrameworks.lookup id = some base from hbase,
        FrameworkRecord.withDefaults_self]

/-! ### Files -/

theorem ofEntries_of_overlay? {c : Config} (h : overlay? default es = some c) :
    ofEntries es = if c.problems = [] then .ok c else .error (.invalid c.problems) := by
  rw [ofEntries, h]
  simp only [List.isEmpty_iff]

theorem load_run {path content : Text} {fs : FileSystem}
    (h : (Files.read (Path.clean path)).run fs = (.ok content, fs)) :
    (load path).run fs =
      ((ofText path content).mapError fun fault => .other (fault.message path), fs) := by
  have hread : (FileTask.during ("failed to load config " ++ path)
      (FileTask.ofFiles (Files.read (Path.clean path)))).run fs = (.ok content, fs) := by
    rw [FileTask.during_run, FileTask.ofFiles_run, h]
  rw [load, run_bind_ok hread]
  cases ofText path content <;> rfl

/-- **A file with a typed tree is loaded exactly if the layered configuration has no problems.**
Then it gives the layered configuration, and otherwise it fails with the problems. -/
theorem load_layered (h : Typed es) : ∃ c, Layered es c ∧
    ofEntries es = (if c.problems = [] then .ok c else .error (.invalid c.problems)) ∧
    ∀ path content fs, (Files.read (Path.clean path)).run fs = (.ok content, fs) →
      (formatOf path).parse? content = some es →
      (load path).run fs =
        (if c.problems = [] then .ok c
          else .error (.other (FileFault.message path (.invalid c.problems))), fs) := by
  obtain ⟨c, hc, hlayered⟩ := overlay?_layered h
  have hentries := ofEntries_of_overlay? hc
  refine ⟨c, hlayered, hentries, fun path content fs hread hparse => ?_⟩
  rw [load_run hread, ofText, hparse]
  simp only [hentries]
  split <;> rfl

/-- The settings for another binary, and for a stock framework under another name. -/
def renamedText : Text :=
  "\x7b\"git\":\x7b\"binary\":\"g\"\x7d,\"frameworks\":\x7b\"typo3\":\x7b\"name\":\"T\"\x7d\x7d\x7d"

def renamedEntries : Entries :=
  [("git", .table [("binary", .text "g")]),
    ("frameworks", .table [("typo3", .table [("name", .text "T")])])]

def renamedFiles : FileSystem :=
  ({} : FileSystem).put ["c.json"] (.file 0o644 renamedText Time.zero)

def renamed : Config :=
  { default with
    frameworks := [("drupal", .drupal), ("typo3", { FrameworkRecord.typo3 with name := "T" })]
    git := { default.git with binary := "g" } }

theorem renamed_typed : Typed renamedEntries := by
  have hgit : Fits GitSettings.fields [("binary", .text "g")] := by
    simp only [Fits, GitSettings.fields, List.forall_mem_cons]
    exact ⟨Spells.nil.cons_self trivial, Spells.nil.cons_other (by decide +kernel),
      Spells.nil.cons_other (by decide +kernel), by simp⟩
  have htypo3 : Fits FrameworkRecord.fields [("name", .text "T")] := by
    simp only [Fits, FrameworkRecord.fields, List.forall_mem_cons]
    exact ⟨Spells.nil.cons_self trivial, Spells.nil.cons_other (by decide +kernel),
      Spells.nil.cons_other (by decide +kernel), Spells.nil.cons_other (by decide +kernel),
      Spells.nil.cons_other (by decide +kernel), Spells.nil.cons_other (by decide +kernel), by simp⟩
  have hframeworks : FitsFrameworks (.table [("typo3", .table [("name", .text "T")])]) :=
    List.forall_mem_singleton.2 htypo3
  have hother : ∀ {name : Text} {P : Setting → Prop}, Text.equalFold "git" name = false →
      Text.equalFold "frameworks" name = false → Spells name P renamedEntries :=
    fun hg hf => (Spells.nil.cons_other hf).cons_other hg
  exact {
    frameworks := (Spells.nil.cons_self hframeworks).cons_other (by decide +kernel)
    git := (Spells.nil.cons_other (by decide +kernel)).cons_self hgit
    paths := hother (by decide +kernel) (by decide +kernel)
    analyzer := hother (by decide +kernel) (by decide +kernel)
    history := hother (by decide +kernel) (by decide +kernel)
    cache := hother (by decide +kernel) (by decide +kernel) }

theorem renamed_problems : renamed.problems = [] := by
  have hids : renamed.frameworkIds = ["drupal", "typo3"] :=
    List.mergeSort_of_pairwise (by decide)
  rw [problems, frameworkProblems, hids]
  decide +kernel

/-- Everything else is in the file's configuration as in the stock configuration. -/
theorem load_layered_renamed :
    Typed renamedEntries ∧
      (Files.read (Path.clean "/c.json")).run renamedFiles = (.ok renamedText, renamedFiles) ∧
      (formatOf "/c.json").parse? renamedText = some renamedEntries ∧
      Layered renamedEntries renamed ∧
      (load "/c.json").run renamedFiles = (.ok renamed, renamedFiles) := by
  have hread : (Files.read (Path.clean "/c.json")).run renamedFiles =
      (.ok renamedText, renamedFiles) := by cbv
  have hparse : (formatOf "/c.json").parse? renamedText = some renamedEntries := by cbv
  have hoverlay : overlay? default renamedEntries = some renamed := by decide +kernel
  obtain ⟨c, hlayered, hentries, hload⟩ := load_layered renamed_typed
  have hload := hload "/c.json" renamedText renamedFiles hread hparse
  rw [ofEntries_of_overlay? hoverlay, if_pos renamed_problems] at hentries
  by_cases hvalid : c.problems = []
  · rw [if_pos hvalid, Except.ok.injEq] at hentries
    rw [if_pos hvalid, ← hentries] at hload
    exact ⟨renamed_typed, hread, hparse, hentries ▸ hlayered, hload⟩
  · rw [if_neg hvalid] at hentries
    cases hentries

end Config

end MetricHistory
