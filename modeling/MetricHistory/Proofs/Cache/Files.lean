import MetricHistory.Proofs.FileSystem.Children
import MetricHistory.Proofs.FileSystem.Fresh

/-!
# What a cache does to its files

A cache whose directory is a place of its own (`Cache.Home`) can do everything it tries to: each of
its operations is known exactly.

* `Cache.Home.read_file`, `Cache.Home.remove_file` : the files of the cache are read and removed;
* `Cache.Home.replace_run` : **an entry replaces the file of its key, and nothing else changes**;
* `Cache.Home.clear_run` : all files are removed;
* `Cache.Home.entries_eq` : the entries that are counted are the files with the extension of an
  entry.
-/

namespace MetricHistory

namespace Cache

open FileSystem

variable {dir name : Text} {s : Place} {fs fs' : FileSystem} {n : FileNode} {mode : Nat}
  {content : Text} {modified : Time} {o : Option FileNode}

/-- A directory at a place of its own with files only, or nothing yet. -/
structure Home (dir : Text) (s : Place) (fs : FileSystem) : Prop where
  scratch : Scratch dir s fs
  distinct : fs.Distinct
  place : fs.node? s = none ∨ fs.node? s = some .dir
  files : ∀ x n, fs.node? (s ++ [x]) = some n → ∃ mode content modified, n = .file mode content modified

/-- Only what is under one name has changed. -/
structure Replaced (dir : Text) (s : Place) (name : Text) (n : Option FileNode)
    (fs fs' : FileSystem) : Prop where
  home : Home dir s fs'
  node : ∀ x, fs'.node? (s ++ [x]) = if x = name then n else fs.node? (s ++ [x])

/-! ### Where the paths lead -/

theorem leadsTo_of_scratch (h : Scratch dir s fs) (hs : fs.node? s = some .dir) :
    LeadsTo dir fs s := h.reaches hs

theorem not_leadsTo (h : Scratch dir s fs) (hs : fs.node? s = none) (d : Place) :
    ¬ LeadsTo dir fs d := by
  rintro ⟨left, hr⟩
  obtain ⟨r, xs, c, ws, left', d', hpath, hproper, hnames, hplace, hreach, hfree⟩ := h.front
  have hnone : fs.node? (d' ++ [c]) = none := by
    rcases hfree with rfl | hfree
    · rwa [hplace] at hs
    · exact hfree
  have hc := hnames c (by simp)
  rw [show Path.normalize dir = ⟨r, xs ++ c :: ws⟩ by rw [hpath, hproper.normalize_render]] at hr
  obtain ⟨l, e, hbefore, hlast⟩ := hr.split
  obtain ⟨rfl, rfl⟩ := ((shrinks_eraseBelow fs _).reaches hreach).unique hbefore
  cases hlast with
  | stay => exact hc.ne_dot rfl
  | up => exact hc.ne_dotdot rfl
  | down _ _ hn => simp [hnone] at hn
  | follow _ _ hn => simp [hnone] at hn

theorem Home.dir_of_child (h : Home dir s fs) (hn : fs.node? (s ++ [name]) = some n) :
    fs.node? s = some .dir :=
  h.scratch.sound.parent s name (by simp [hn])

theorem Home.find_file (h : Home dir s fs) (hn : Path.IsName name)
    (hnode : fs.node? (s ++ [name]) = some n) (follow : Bool) :
    fs.find follow (Path.join [dir, name]) = .ok (s ++ [name], n) := by
  have hleads := leadsTo_of_scratch h.scratch (h.dir_of_child hnode)
  obtain ⟨mode, content, modified, rfl⟩ := h.files name n hnode
  cases follow with
  | false => rw [FileSystem.find, hleads.locate hn, hnode]
  | true => rw [FileSystem.find, hleads.locate_true hn (by simp [hnode]), hnode]

theorem Home.find_free (h : Home dir s fs) (hn : Path.IsName name)
    (hnode : fs.node? (s ++ [name]) = none) (follow : Bool) :
    ∃ e, fs.find follow (Path.join [dir, name]) = .error e := by
  rcases h.place with hs | hs
  · cases hl : fs.locate follow (Path.join [dir, name]) with
    | error e => exact ⟨e, by rw [FileSystem.find, hl]⟩
    | ok r =>
      obtain ⟨d, hd⟩ := leadsTo_of_locate hn hl
      exact absurd hd (not_leadsTo h.scratch hs d)
  · have hleads := leadsTo_of_scratch h.scratch hs
    refine ⟨.noEntry, ?_⟩
    cases follow with
    | false => rw [FileSystem.find, hleads.locate hn, hnode]
    | true => rw [FileSystem.find, hleads.locate_true hn (by simp [hnode]), hnode]

theorem Home.read_file (h : Home dir s fs) (hn : Path.IsName name)
    (hnode : fs.node? (s ++ [name]) = some (.file mode content modified)) :
    (Files.read (Path.join [dir, name])).run fs = (.ok content, fs) := by
  rw [read_run, h.find_file hn hnode]

theorem Home.read_free (h : Home dir s fs) (hn : Path.IsName name)
    (hnode : fs.node? (s ++ [name]) = none) :
    ∃ e, (Files.read (Path.join [dir, name])).run fs = (.error e, fs) := by
  obtain ⟨e, he⟩ := h.find_free hn hnode true
  exact ⟨_, by rw [read_run, he]⟩

theorem Home.get_file {c : Cache} (h : Home c.dir s fs) (henabled : c.enabled = true) {key : Text}
    (hfile : fs.node? (s ++ [entryName key]) = some (.file mode content modified))
    (fingerprint : Text) :
    ((c.get key fingerprint).run fs).1 = (CacheEntry.parse? content).bind fun e =>
      if e.key = key ∧ e.fingerprint = fingerprint ∧ c.isExpired fs.clock e = false then some e.data
      else none :=
  (leadsTo_of_scratch h.scratch (h.dir_of_child hfile)).get_file henabled hfile fingerprint

theorem Home.remove_file (h : Home dir s fs) (hn : Path.IsName name)
    (hnode : fs.node? (s ++ [name]) = some n) :
    (Files.remove (Path.join [dir, name])).run fs = (.ok (), fs.erase (s ++ [name])) := by
  obtain ⟨mode, content, modified, rfl⟩ := h.files name n hnode
  rw [Files.remove_run, h.find_file hn hnode]

theorem Home.remove_free (h : Home dir s fs) (hn : Path.IsName name)
    (hnode : fs.node? (s ++ [name]) = none) :
    ∃ e, (Files.remove (Path.join [dir, name])).run fs = (.error e, fs) := by
  obtain ⟨e, he⟩ := h.find_free hn hnode false
  exact ⟨_, by rw [Files.remove_run, he]⟩

/-! ### Changes in the directory -/

/-- Work on names in a cache directory that puts only files there. -/
theorem Home.changed (h : Home dir s fs) (hs : fs.node? s = some .dir) {f : Text → Option FileNode}
    (hsound : fs'.Sound) (hcurrent : fs'.current = fs.current) (hdistinct : fs'.Distinct)
    (hname : ∀ x, fs'.node? (s ++ [x]) = f x)
    (hother : ∀ q, (∀ x, q ≠ s ++ [x]) → fs'.node? q = fs.node? q)
    (hf : ∀ x n, f x = some n → ∃ mode content modified, n = .file mode content modified) :
    Home dir s fs' := by
  have hout : ∀ q, ¬ s <+: q → fs'.node? q = fs.node? q := by
    intro q hq
    refine hother q ?_
    rintro x rfl
    exact hq (List.prefix_append _ _)
  refine ⟨h.scratch.confined ⟨fun hq hm => (hout _ hq).trans hm, fun {q m} hq hm => .inl ?_,
    hcurrent, hsound⟩, hdistinct, .inr ?_, fun x n hx => hf x n ((hname x).symm.trans hx)⟩
  · rwa [hout q hq] at hm
  · rw [hother s (by simp), hs]

/-- Work on one file of a cache directory. -/
theorem Home.replaced (h : Home dir s fs) (hs : fs.node? s = some .dir)
    (hsound : fs'.Sound) (hcurrent : fs'.current = fs.current) (hdistinct : fs'.Distinct)
    (hn : ∀ m, o = some m → ∃ mode content modified, m = .file mode content modified)
    (hnode : ∀ q, fs'.node? q = if q = s ++ [name] then o else fs.node? q) :
    Replaced dir s name o fs fs' := by
  have hname : ∀ x, fs'.node? (s ++ [x]) = if x = name then o else fs.node? (s ++ [x]) := by
    intro x
    rw [hnode]
    simp only [List.append_cancel_left_eq, List.cons.injEq, and_true]
  refine ⟨h.changed hs hsound hcurrent hdistinct hname (fun q hq => ?_) fun x m hx => ?_, hname⟩
  · rw [hnode, if_neg (hq name)]
  · split at hx
    · exact hn m hx
    · exact h.files x m hx

theorem Home.erase (h : Home dir s fs) (hnode : fs.node? (s ++ [name]) = some n) :
    Replaced dir s name none fs (fs.erase (s ++ [name])) := by
  obtain ⟨mode, content, modified, rfl⟩ := h.files name n hnode
  exact h.replaced (h.dir_of_child hnode) (h.scratch.sound.erase (by simp) (by simp [hnode])) rfl
    (h.distinct.erase _) (by simp) (node?_erase (by simp))

theorem Home.ne_dir (h : Home dir s fs) (name : Text) : fs.node? (s ++ [name]) ≠ some .dir := by
  intro hd
  obtain ⟨_, _, _, hfile⟩ := h.files name _ hd
  simp at hfile

theorem Home.put (h : Home dir s fs) (hs : fs.node? s = some .dir) (name : Text) (mode : Nat)
    (content : Text) (modified : Time) :
    Replaced dir s name (some (.file mode content modified)) fs
      (fs.put (s ++ [name]) (.file mode content modified)) :=
  h.replaced hs (h.scratch.sound.put hs (h.ne_dir name) _) rfl (h.distinct.put _ _) (by simp)
    (node?_put (by simp) _)

/-- The directory of a cache can be made when it is missing. -/
theorem Home.makeDirs_run (h : Home dir s fs) :
    ∃ fs', (Files.makeDirs dir).run fs = (.ok (), fs') ∧ Home dir s fs' ∧
      fs'.node? s = some .dir ∧ fs'.clock = fs.clock ∧ fs'.mask = fs.mask ∧
      ∀ x, fs'.node? (s ++ [x]) = fs.node? (s ++ [x]) := by
  rcases h.place with hs | hs
  · -- where nothing is, making the directory is the same as emptying it
    obtain ⟨fs', hreset, hconfined, hemptied, hclock, hmask⟩ := h.scratch.resetDir_run
    have hmake : (Files.makeDirs dir).run fs = (.ok (), fs') := by
      rw [Files.resetDir, run_bind, h.scratch.removeAll_run,
        h.scratch.sound.eraseBelow_free h.scratch.ne_nil hs] at hreset
      exact hreset
    have hdistinct := Files.makeDirs_distinct h.distinct dir
    rw [hmake] at hdistinct
    refine ⟨fs', hmake, ⟨h.scratch.confined hconfined, hdistinct, .inr hemptied.dir, fun x n hx => ?_⟩,
      hemptied.dir, hclock, hmask, fun x => ?_⟩
    · simp [hemptied.empty [x] (by simp)] at hx
    · rw [hemptied.empty [x] (by simp), h.scratch.sound.below_none (by simp [hs]) (by simp)]
  · obtain ⟨r, xs, ys, -, -, hpath, hproper, -⟩ := h.scratch.way
    obtain ⟨left, hreach⟩ := h.scratch.reaches hs
    rw [hpath, hproper.normalize_render] at hreach
    have hmake := Files.makeDirs_there hproper hreach
    rw [← hpath] at hmake
    exact ⟨fs, hmake, h, hs, rfl, rfl, fun _ => rfl⟩

/-- Puts the text of an entry into the file of its key, in a directory that is there. -/
def fill (c : Cache) (key raw : Text) : Files Unit := do
  let temp ← Files.createTemp c.dir ".entry-"
  Files.write temp raw 0o600
  Files.rename temp (c.entryPath key)

/-- Storing an entry in a directory that is there puts the file of its key there, and changes
nothing else. -/
theorem fill_run {c : Cache} {d : Place} (hs : fs.Sound) (hd : LeadsTo c.dir fs d) {key : Text}
    (hdir : fs.node? (d ++ [entryName key]) ≠ some .dir) (raw : Text) :
    ∃ fs', (fill c key raw).run fs = (.ok (), fs') ∧ fs'.Sound ∧ fs'.current = fs.current ∧
      fs'.clock = fs.clock ∧ (fs.Distinct → fs'.Distinct) ∧
      ∀ q, fs'.node? q =
        if q = d ++ [entryName key] then some (.file (fs.granted 0o600) raw fs.clock)
        else fs.node? q := by
  obtain ⟨i, hfresh, htemp⟩ := Files.createTemp_leadsTo hs hd
    (show Path.slash ∉ Text.ofString ".entry-" by decide)
  change Fresh c.dir (tempName i) d fs at hfresh
  change (Files.createTemp c.dir ".entry-").run fs =
    (.ok (Path.join [c.dir, tempName i]), fs.withTemp (d ++ [tempName i]) []) at htemp
  have hlocate := (hfresh.leads_withTemp raw).locate (isName_entryName key)
  have hdir' : (fs.withTemp (d ++ [tempName i]) raw).node? (d ++ [entryName key]) ≠ some .dir := by
    rw [node?_withTemp (by simp)]
    split
    · simp
    · exact hdir
  refine ⟨_, ?_, hfresh.sound_moved raw hlocate hdir', rfl, rfl, fun hdistinct => ?_,
    hfresh.node?_moved raw (by simp)⟩
  · rw [fill, run_bind_ok htemp, run_bind_ok (hfresh.write_run [] raw)]
    exact hfresh.rename_free raw hlocate hdir'
  · exact (hdistinct.put _ _).moved (hfresh.sound_withTemp raw) (node?_temp fs d (tempName i) raw)

theorem set_new {c : Cache} {d : Place} {key data raw : Text} (fingerprint : Text)
    (henabled : c.enabled = true) (hs : fs.Sound) (hd : LeadsTo c.dir fs d)
    (hthere : fs.isDir c.dir = true) (hfree : fs.node? (d ++ [entryName key]) = none)
    (hencode : CacheEntry.encode? { key, fingerprint, stored := fs.clock, data } = some raw) :
    ∃ fs', ((c.set key fingerprint data).run fs).2 = fs' ∧ LeadsTo c.dir fs' d ∧
      fs'.clock = fs.clock ∧
      fs'.node? (d ++ [entryName key]) = some (.file (fs.granted 0o600) raw fs.clock) := by
  have hdir : fs.node? (d ++ [entryName key]) ≠ some .dir := by simp [hfree]
  obtain ⟨fs', hfill, -, hcurrent, hclock, -, hnode⟩ := fill_run hs hd hdir raw
  have hreplace : (replace c key raw).run fs = (.ok (), fs') := by
    rw [replace, run_bind_ok (Files.makeDirs_of_isDir hthere)]
    exact hfill
  refine ⟨fs', ?_, hd.mono (.of_node? fun q n hq => ?_) hcurrent, hclock,
    (hnode _).trans (if_pos rfl)⟩
  · rw [set_state, if_neg (by simp [henabled]), hencode]
    simp only [hreplace]
  · rw [hnode, if_neg, hq]
    rintro rfl
    simp [hfree] at hq

/-- **An entry replaces the file of its key, and nothing else changes.** -/
theorem Home.replace_run {c : Cache} (h : Home c.dir s fs) (key raw : Text) :
    ∃ fs', (replace c key raw).run fs = (.ok (), fs') ∧
      Replaced c.dir s (entryName key) (some (.file (fs.granted 0o600) raw fs.clock)) fs fs' := by
  obtain ⟨made, hmake, hhome, hs, hclock, hmask, hsame⟩ := h.makeDirs_run
  obtain ⟨fs', hfill, hsound, hcurrent, -, hdistinct, hnode⟩ :=
    fill_run hhome.scratch.sound (leadsTo_of_scratch hhome.scratch hs) (hhome.ne_dir (entryName key)) raw
  have hr := hhome.replaced hs hsound hcurrent (hdistinct hhome.distinct) (by simp) hnode
  refine ⟨fs', ?_, hr.home, fun x => ?_⟩
  · rw [replace, run_bind_ok hmake]
    exact hfill
  · rw [hr.node, hclock, granted_congr hmask, hsame]

theorem Home.clear_run {c : Cache} (henabled : c.enabled = true) (h : Home c.dir s fs) :
    c.clear.run fs = (.ok (), fs.eraseBelow s) ∧ Home c.dir s (fs.eraseBelow s) ∧
      ∀ x, (fs.eraseBelow s).node? (s ++ [x]) = none := by
  have hnone : ∀ ys, (fs.eraseBelow s).node? (s ++ ys) = none := by
    intro ys
    rw [node?_eraseBelow (by simp [h.scratch.ne_nil]), if_pos (List.prefix_append _ _)]
  refine ⟨?_, ⟨h.scratch.confined h.scratch.confined_eraseBelow, h.distinct.eraseBelow s, .inl ?_,
    fun x n hx => ?_⟩, fun x => hnone [x]⟩
  · rw [clear, henabled]
    exact h.scratch.removeAll_run
  · simpa using hnone []
  · simp [hnone] at hx

/-! ### What is counted -/

/-- The extension of an entry file. -/
def isEntry (name : Text) : Bool := Path.extension name == Text.ofString ".json"

theorem extension_dotted {name front ext : Text} (hn : Path.slash ∉ name)
    (hname : name = front ++ Text.byte '.' :: ext) (hext : Text.byte '.' ∉ ext) :
    Path.extension name = Text.byte '.' :: ext := by
  have hlast : Text.cutLast? (Text.byte '.') name = some (front, ext) := by
    rw [hname, Text.cutLast?_append hext]
  simp only [Path.extension, Text.cutLast?_of_not_mem hn, hlast]

theorem isEntry_entryName (key : Text) : isEntry (entryName key) = true := by
  have hname : entryName key = Blake3.hashHex key ++ Text.byte '.' :: Text.ofString "json" := rfl
  rw [isEntry, extension_dotted (isName_entryName key).slash_not_mem hname (by decide)]
  rfl

theorem isEntry_tempName (i : Nat) : isEntry (tempName i) = false := by
  have hdot : Text.byte '.' ∉ Text.ofString "entry-" ++ Text.ofNat i := by
    rw [List.mem_append, not_or]
    refine ⟨by decide, fun h => ?_⟩
    exact absurd (Text.digits_ofNat i _ h) (by decide)
  have hname : tempName i = [] ++ Text.byte '.' :: (Text.ofString "entry-" ++ Text.ofNat i) := rfl
  rw [isEntry, extension_dotted (isName_tempName i).slash_not_mem hname hdot]
  rfl

theorem Home.belowPlace_eq (h : Home dir s fs) (fuel : Nat) :
    fs.belowPlace (fuel + 1) s [] = (fs.children s).map fun x => ([x.1], x.2) := by
  rw [belowPlace, List.map_eq_flatMap]
  refine List.flatMap_congr ?_
  rintro ⟨x, n⟩ hx
  obtain ⟨mode, content, modified, rfl⟩ := h.files x n (h.distinct.mem_children.1 hx)
  rfl

theorem Home.entryFiles_eq (h : Home dir s fs) :
    ∃ found, entryFiles fs dir = .ok found ∧
      found.length = ((fs.children s).filter fun x => isEntry x.1).length := by
  rw [entryFiles, FileSystem.entries, h.scratch.find_place]
  rcases h.place with hs | hs
  · -- nothing is in a directory that is not there
    have hempty : fs.children s = [] := by
      rw [List.eq_nil_iff_forall_not_mem]
      intro x hx
      have hdir := h.dir_of_child (h.distinct.mem_children.1 hx)
      simp [hs] at hdir
    rw [hs, hempty]
    exact ⟨[], rfl, rfl⟩
  · rw [hs]
    refine ⟨_, rfl, ?_⟩
    rw [h.belowPlace_eq, List.map_map, List.filterMap_map, List.length_filterMap_eq_countP,
      List.countP_eq_length_filter]
    congr 1
    refine List.filter_congr ?_
    rintro ⟨x, n⟩ hx
    obtain ⟨mode, content, modified, rfl⟩ := h.files x n (h.distinct.mem_children.1 hx)
    by_cases hext : Path.extension x = Text.ofString ".json" <;> simp [isEntry, hext]

/-- **Counting succeeds, and what is counted are the files with the extension of an entry.** -/
theorem Home.entries_eq {c : Cache} (henabled : c.enabled = true) (h : Home c.dir s fs) :
    (c.stats fs).failure? = none ∧
      (c.stats fs).entries = ((fs.children s).filter fun x => isEntry x.1).length := by
  obtain ⟨found, hfound, hlength⟩ := h.entryFiles_eq
  simp [stats, henabled, hfound, hlength]

end Cache

end MetricHistory
