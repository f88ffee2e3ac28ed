import MetricHistory.Cache
import MetricHistory.Proofs.FileSystem.Temporary

/-!
# The directory of a cache

What a cache directory shows (`Cache.shown?`) are the nodes at the paths that the cache reads and
writes.  The operations of a cache change it in a known way.

* `Cache.NothingNew` : no file and no link has come into the directory;
* `Cache.get_spec` : a lookup brings nothing new, and finds only what an entry file says;
* `Cache.set_spec` : storing brings temporary files and the file of the key, with the entry in it.

The directory need not be there.  A cache whose directory is spelled with detours needs it to be
there, though, as `Cache.create` makes it (`Cache.Stands`).
-/

namespace MetricHistory

namespace Cache

open FileSystem

/-- The node under a name in a cache directory, a link not followed. -/
def shown? (dir : Text) (fs : FileSystem) (name : Text) : Option FileNode :=
  (fs.find false (Path.join [dir, name])).toOption.map (·.2)

/-- The cache directory is a directory at the place `d`. -/
def LeadsTo (dir : Text) (fs : FileSystem) (d : Place) : Prop :=
  ∃ left, Reaches fs linkLimit (fs.origin (Path.normalize dir).rooted) (Path.normalize dir).parts
    left d

/-- What a cache relies on: the file system is one, and the way to the cache directory has no
detours unless the directory is there. -/
structure Stands (dir : Text) (fs : FileSystem) : Prop where
  sound : fs.Sound
  ready : Path.clean dir = dir ∨ fs.isDir (Path.clean dir) = true

/-- Every file and link that the cache directory shows it showed before. -/
def NothingNew (dir : Text) (fs fs' : FileSystem) : Prop :=
  ∀ name n, Path.IsName name → n ≠ .dir → shown? dir fs' name = some n → shown? dir fs name = some n

/-- Whatever the cache directory shows, be it a directory, it showed before. -/
def NothingMore (dir : Text) (fs fs' : FileSystem) : Prop :=
  ∀ name n, Path.IsName name → shown? dir fs' name = some n → shown? dir fs name = some n

/-- There is no link in the cache directory. -/
def NoLinks (dir : Text) (fs : FileSystem) : Prop :=
  ∀ name t, Path.IsName name → shown? dir fs name ≠ some (.link t)

variable {dir name : Text} {fs fs' : FileSystem} {d : Place} {n : FileNode}

theorem LeadsTo.unique {d' : Place} (h : LeadsTo dir fs d) (h' : LeadsTo dir fs d') : d' = d := by
  obtain ⟨left, h⟩ := h
  obtain ⟨left', h'⟩ := h'
  exact (h.unique h').2

theorem LeadsTo.node?_eq (h : LeadsTo dir fs d) (hs : fs.Sound) : fs.node? d = some .dir := by
  obtain ⟨left, h⟩ := h
  exact h.dir hs (hs.dir_origin _)

theorem LeadsTo.mono (h : LeadsTo dir fs d) (hk : fs.Keeps fs') (hc : fs'.current = fs.current) :
    LeadsTo dir fs' d := by
  obtain ⟨left, h⟩ := h
  refine ⟨left, ?_⟩
  rw [origin, hc]
  exact h.mono hk

theorem isDir_clean_iff : fs.isDir (Path.clean dir) = true ↔ ∃ d, LeadsTo dir fs d := by
  have hn := Path.normalize_proper dir
  rw [isDir, Path.clean]
  constructor
  · intro h
    cases hfind : fs.find true (Path.normalize dir).render with
    | error e => simp [hfind] at h
    | ok found =>
      obtain ⟨d, n⟩ := found
      obtain rfl : n = .dir := by
        cases n with
        | dir => rfl
        | _ => simp [hfind, FileNode.isDir] at h
      exact ⟨d, Files.reaches_of_find hn hfind⟩
  · rintro ⟨d, left, h⟩
    rw [Files.find_render_dir hn h]
    rfl

theorem locate_join (hn : Path.IsName name) {left : Nat} (follow : Bool)
    (h : Reaches fs linkLimit (fs.origin (Path.normalize dir).rooted) (Path.normalize dir).parts
      left d) :
    fs.locate follow (Path.join [dir, name]) = fs.walk follow left d [name] := by
  rw [Path.join_name dir hn, Path.below, locate_render (Path.proper_below dir (by simpa using hn))]
  exact h.walk_append (.inr (by simp))

/-- A path in the cache directory leads through it. -/
theorem LeadsTo.locate (h : LeadsTo dir fs d) (hn : Path.IsName name) :
    fs.locate false (Path.join [dir, name]) = .ok (d ++ [name], fs.node? (d ++ [name])) := by
  obtain ⟨left, h⟩ := h
  rw [locate_join hn false h, walk_name hn.ne_dot hn.ne_dotdot]
  rcases fs.node? (d ++ [name]) with _ | _ | _ | _ <;> rfl

theorem LeadsTo.locate_true (h : LeadsTo dir fs d) (hn : Path.IsName name)
    (hl : ∀ t, fs.node? (d ++ [name]) ≠ some (.link t)) :
    fs.locate true (Path.join [dir, name]) = .ok (d ++ [name], fs.node? (d ++ [name])) := by
  obtain ⟨left, h⟩ := h
  rw [locate_join hn true h, walk_name hn.ne_dot hn.ne_dotdot]
  rcases hnode : fs.node? (d ++ [name]) with _ | _ | _ | t
  · rfl
  · rfl
  · rfl
  · exact absurd hnode (hl t)

theorem leadsTo_of_locate {follow : Bool} {r : Place × Option FileNode} (hn : Path.IsName name)
    (h : fs.locate follow (Path.join [dir, name]) = .ok r) : ∃ d, LeadsTo dir fs d := by
  rw [Path.join_name dir hn, Path.below, locate_render (Path.proper_below dir (by simpa using hn))] at h
  obtain ⟨left, d, hr, -⟩ := reaches_of_walk_ok h
  exact ⟨d, left, hr⟩

theorem shown?_eq_some_iff (hn : Path.IsName name) :
    shown? dir fs name = some n ↔ ∃ d, LeadsTo dir fs d ∧ fs.node? (d ++ [name]) = some n := by
  rw [shown?, find]
  constructor
  · intro h
    cases hl : fs.locate false (Path.join [dir, name]) with
    | error e => simp [hl, Except.toOption] at h
    | ok found =>
      obtain ⟨d, hd⟩ := leadsTo_of_locate hn hl
      rw [hd.locate hn] at h
      refine ⟨d, hd, ?_⟩
      cases hnode : fs.node? (d ++ [name]) with
      | none => simp [hnode, Except.toOption] at h
      | some m => simpa [hnode, Except.toOption] using h
  · rintro ⟨d, hd, hnode⟩
    rw [hd.locate hn, hnode]
    rfl

theorem LeadsTo.shown? (h : LeadsTo dir fs d) (hn : Path.IsName name) :
    shown? dir fs name = fs.node? (d ++ [name]) := by
  refine Option.ext fun n => ?_
  rw [shown?_eq_some_iff hn]
  constructor
  · rintro ⟨d', h', hnode⟩
    rwa [h.unique h'] at hnode
  · intro hnode
    exact ⟨d, h, hnode⟩

theorem NothingMore.nothingNew (h : NothingMore dir fs fs') : NothingNew dir fs fs' :=
  fun name n hn _ => h name n hn

theorem NothingNew.refl (dir : Text) (fs : FileSystem) : NothingNew dir fs fs :=
  fun _ _ _ _ h => h

theorem nothingNew_of_shrinks (h : fs.Shrinks fs') : NothingNew dir fs fs' := by
  intro name n hn _ hs
  obtain ⟨d, ⟨left, hd⟩, hnode⟩ := (shown?_eq_some_iff hn).1 hs
  rw [origin, h.current] at hd
  exact (shown?_eq_some_iff hn).2 ⟨d, ⟨left, h.reaches hd⟩, h.node hnode⟩

/-- The cache goes on to stand as long as no directory and no link goes away. -/
theorem Stands.mono (h : Stands dir fs) (hs : fs'.Sound) (hk : fs.Keeps fs')
    (hc : fs'.current = fs.current) : Stands dir fs' := by
  refine ⟨hs, h.ready.imp id ?_⟩
  intro hdir
  obtain ⟨d, hd⟩ := isDir_clean_iff.1 hdir
  exact isDir_clean_iff.2 ⟨d, hd.mono hk hc⟩

/-- What the operations of a cache leave alone: no directory and no link goes away, and what is new
outside the cache directory are directories. -/
structure Serves (dir : Text) (fs fs' : FileSystem) : Prop where
  stands : Stands dir fs'
  keeps : fs.Keeps fs'
  current : fs'.current = fs.current
  new : ∀ {q : Place} {n : FileNode}, fs'.node? q = some n → n ≠ .dir →
    fs.node? q = some n ∨ ∃ d x, LeadsTo dir fs' d ∧ q = d ++ [x]

theorem Stands.serves_refl (h : Stands dir fs) : Serves dir fs fs :=
  ⟨h, .refl fs, rfl, fun hq _ => .inl hq⟩

theorem Serves.trans {fs'' : FileSystem} (h : Serves dir fs fs') (h' : Serves dir fs' fs'') :
    Serves dir fs fs'' where
  stands := h'.stands
  keeps := h.keeps.trans h'.keeps
  current := h'.current.trans h.current
  new hq hn := by
    rcases h'.new hq hn with hq | hin
    · refine (h.new hq hn).imp_right ?_
      rintro ⟨d, x, hd, heq⟩
      exact ⟨d, x, hd.mono h'.keeps h'.current, heq⟩
    · exact .inr hin

theorem serves_makeDirs (h : Stands dir fs) : Serves dir fs ((Files.makeDirs dir).run fs).2 := by
  have hg := Files.makeDirs_grows h.sound dir
  have hkeeps : fs.Keeps ((Files.makeDirs dir).run fs).2 := .of_node? fun _ _ => hg.keep
  exact ⟨h.mono hg.sound hkeeps hg.current, hkeeps, hg.current, fun hq hn => .inl (hg.new hq hn)⟩

theorem makeDirs_nothingNew (h : Stands dir fs) :
    NothingNew dir fs ((Files.makeDirs dir).run fs).2 := by
  have hg := Files.makeDirs_grows h.sound dir
  by_cases hthere : ∃ d, LeadsTo dir fs d
  · obtain ⟨d, hd⟩ := hthere
    intro name n hn hdir hs
    rw [(hd.mono (.of_node? fun _ _ => hg.keep) hg.current).shown? hn] at hs
    rw [hd.shown? hn]
    exact hg.new hs hdir
  -- a directory that is not there is spelled without detours
  have hclean : Path.clean dir = dir := h.ready.resolve_right (hthere ∘ isDir_clean_iff.1)
  have hproper := Path.normalize_proper dir
  have hrun : ∀ {parts : List Text} {r : Except FileError Unit × FileSystem},
      (Path.normalize dir).parts = parts →
        (Files.makeDirs (Path.Normal.render ⟨(Path.normalize dir).rooted, parts⟩)).run fs = r →
          (Files.makeDirs dir).run fs = r := by
    rintro parts r rfl hr
    exact (congrArg (fun path => (Files.makeDirs path).run fs) hclean.symm).trans hr
  rcases course fs linkLimit (fs.origin (Path.normalize dir).rooted)
      fun c hc => hproper.part_ne_dot hc with
    ⟨left, d, hr⟩ | ⟨xs, c, ys, left, d, hps, hx, hc, hnone⟩ |
      ⟨xs, c, ys, left, d, m, hps, hx, hc, hnode, hno⟩
  · exact absurd ⟨d, left, hr⟩ hthere
  · -- the directory is new, and so it is empty
    have hproper' : Path.Normal.Proper ⟨(Path.normalize dir).rooted, xs ++ c :: ys⟩ := hps ▸ hproper
    have hnames : ∀ a ∈ c :: ys, Path.IsName a := by
      intro a ha
      rcases List.mem_cons.1 ha with rfl | ha
      · exact hproper'.part (by simp) hc
      · exact hproper'.names_after rfl hc a ha
    rw [hrun hps (Files.makeDirs_missing h.sound hx hc hnone hproper')]
    intro name n hn _ hs
    have hd : LeadsTo dir (fs.plantDirs d (c :: ys)) (d ++ c :: ys) := by
      refine ⟨left, ?_⟩
      rw [hps, origin, plantDirs_current]
      exact hx.plantDirs h.sound hnone hnames
    rw [hd.shown? hn, node?_plantDirs_next h.sound hnone] at hs
    simp at hs
  · have hproper' : Path.Normal.Proper ⟨(Path.normalize dir).rooted, xs ++ c :: ys⟩ := hps ▸ hproper
    obtain ⟨e, he⟩ := Files.makeDirs_blocked hx hc hnode hno hproper'
    rw [hrun hps he]
    exact .refl dir fs

/-! ### Looking up -/

/-- The name of the file with the entry of a key. -/
def entryName (key : Text) : Text := Blake3.hashHex key ++ ".json"

theorem slash_not_mem_hex (t : Text) : Path.slash ∉ Text.hex t := by
  have hdigit : ∀ n < 16,
      (if n < 10 then UInt8.ofNat (48 + n) else UInt8.ofNat (87 + n)) ≠ Path.slash := by decide
  intro h
  obtain ⟨b, -, hb⟩ := List.mem_flatMap.1 h
  have hlt := b.toNat_lt
  simp only [Text.hexByte, List.mem_cons, List.not_mem_nil, or_false] at hb
  rcases hb with hb | hb
  · exact hdigit (b.toNat / 16) (by omega) hb.symm
  · exact hdigit (b.toNat % 16) (by omega) hb.symm

theorem isName_entryName (key : Text) : Path.IsName (entryName key) := by
  have hlength : (entryName key).length = (Blake3.hashHex key).length + 5 := by
    rw [entryName, List.length_append]
    rfl
  refine ⟨?_, ?_, ?_, ?_⟩
  · intro h
    simp [h] at hlength
  · intro h
    rw [h, show Path.dot.length = 1 from rfl] at hlength
    omega
  · intro h
    rw [h, show Path.dotdot.length = 2 from rfl] at hlength
    omega
  · rw [entryName, List.mem_append, not_or]
    exact ⟨slash_not_mem_hex _, by decide⟩

theorem read_run (path : Text) (fs : FileSystem) :
    (Files.read path).run fs =
      match fs.find true path with
      | .ok (_, .file _ content _) => (.ok content, fs)
      | .ok _ => (.error ⟨"read", [path], .isDirectory⟩, fs)
      | .error e => (.error ⟨"open", [path], e⟩, fs) := by
  have hfind : (Files.find "open" true path).run fs =
      ((fs.find true path).mapError (⟨"open", [path], ·⟩), fs) := by
    rw [Files.find, run_get_bind]
    rcases fs.find true path with e | found <;> rfl
  rw [Files.read, run_bind, hfind]
  rcases fs.find true path with e | ⟨p, _ | _ | _⟩ <;> rfl

theorem shown?_of_read (hl : NoLinks dir fs) (hn : Path.IsName name) {content : Text}
    {fs' : FileSystem} (h : (Files.read (Path.join [dir, name])).run fs = (.ok content, fs')) :
    fs' = fs ∧ ∃ mode modified, shown? dir fs name = some (.file mode content modified) := by
  rw [read_run, FileSystem.find] at h
  cases hloc : fs.locate true (Path.join [dir, name]) with
  | error e =>
    rw [hloc] at h
    cases h
  | ok found =>
    obtain ⟨d, hd⟩ := leadsTo_of_locate hn hloc
    have hlink : ∀ t, fs.node? (d ++ [name]) ≠ some (.link t) := by
      intro t ht
      exact hl name t hn ((hd.shown? hn).trans ht)
    rw [hd.locate_true hn hlink] at h
    rw [hd.shown? hn]
    rcases hnode : fs.node? (d ++ [name]) with _ | _ | ⟨mode, content', modified⟩ | t
    · rw [hnode] at h
      cases h
    · rw [hnode] at h
      cases h
    · rw [hnode] at h
      cases h
      exact ⟨rfl, mode, modified, rfl⟩
    · exact absurd hnode (hlink t)

theorem read_state (path : Text) (fs : FileSystem) : ((Files.read path).run fs).2 = fs := by
  rw [read_run]
  rcases fs.find true path with e | ⟨p, _ | _ | _⟩ <;> rfl

theorem serves_remove (hs : Stands dir fs) (hn : Path.IsName name) {mode : Nat} {content : Text}
    {modified : Time} (h : shown? dir fs name = some (.file mode content modified)) :
    Serves dir fs ((Files.remove (Path.join [dir, name])).run fs).2 := by
  obtain ⟨d, hd, hnode⟩ := (shown?_eq_some_iff hn).1 h
  have hfind : fs.find false (Path.join [dir, name]) =
      .ok (d ++ [name], .file mode content modified) := by
    rw [FileSystem.find, hd.locate hn, hnode]
  have hkeeps : fs.Keeps (fs.erase (d ++ [name])) := keeps_erase (by simp) hnode
  rw [Files.remove_run, hfind]
  exact ⟨hs.mono (hs.sound.erase (by simp) (by simp [hnode])) hkeeps rfl, hkeeps, rfl,
    fun hq _ => .inl ((shrinks_erase fs _).node hq)⟩

theorem get_run (c : Cache) (key fingerprint : Text) (fs : FileSystem) :
    (c.get key fingerprint).run fs =
      if c.enabled = false then (none, fs)
      else
        match (Files.read (c.entryPath key)).run fs with
        | (.error _, fs) => (none, fs)
        | (.ok raw, fs) =>
          match CacheEntry.parse? raw with
          | none => (none, ((Files.remove (c.entryPath key)).run fs).2)
          | some e =>
            if e.key ≠ key ∨ e.fingerprint ≠ fingerprint then (none, fs)
            else if c.isExpired fs.clock e then
              (none, ((Files.remove (c.entryPath key)).run fs).2)
            else (some e.data, fs) := by
  cases henabled : c.enabled with
  | false =>
    simp only [get, henabled]
    rfl
  | true =>
    rcases hread : (Files.read (c.entryPath key)).run fs with ⟨e | raw, fs'⟩
    all_goals
      have hread' : StateT.run (Files.read (c.entryPath key)).run fs = _ := hread
      simp only [get, henabled]
      change StateT.run ((Files.read (c.entryPath key)).run >>= _) fs = _
      rw [run_seq, hread']
    · rfl
    · simp only
      cases CacheEntry.parse? raw with
      | none => rfl
      | some e =>
        by_cases hsame : e.key ≠ key ∨ e.fingerprint ≠ fingerprint
        · have hb : (e.key != key || e.fingerprint != fingerprint) = true := by simpa using hsame
          simp only [hb, hsame, if_true]
          rfl
        · have hb : (e.key != key || e.fingerprint != fingerprint) = false := by simpa using hsame
          simp only [hb, hsame, if_false, Bool.false_eq_true]
          change StateT.run (if c.isExpired fs'.clock e = true then _ else _) fs' = _
          split <;> rfl

/-- What is looked up is what the file of the key holds, if it is for the key and not too old. -/
theorem LeadsTo.get_file {c : Cache} (hd : LeadsTo c.dir fs d) (henabled : c.enabled = true)
    {key content : Text} {mode : Nat} {modified : Time}
    (hfile : fs.node? (d ++ [entryName key]) = some (.file mode content modified))
    (fingerprint : Text) :
    ((c.get key fingerprint).run fs).1 = (CacheEntry.parse? content).bind fun e =>
      if e.key = key ∧ e.fingerprint = fingerprint ∧ c.isExpired fs.clock e = false then some e.data
      else none := by
  have hread : (Files.read (c.entryPath key)).run fs = (.ok content, fs) := by
    rw [show c.entryPath key = Path.join [c.dir, entryName key] from rfl, read_run,
      FileSystem.find, hd.locate_true (isName_entryName key) (by simp [hfile]), hfile]
  rw [get_run, if_neg (by simp [henabled]), hread]
  rcases hparse : CacheEntry.parse? content with _ | e
  · simp only [hparse, Option.bind_none]
  · simp only [hparse, Option.bind_some]
    by_cases hkey : e.key = key <;> by_cases hprint : e.fingerprint = fingerprint <;>
      cases hexpired : c.isExpired fs.clock e <;> simp [hkey, hprint]

/-- The directory shows an entry with the given key, fingerprint and data. -/
def Holds (dir : Text) (fs : FileSystem) (key fingerprint data : Text) : Prop :=
  ∃ mode content modified e,
    shown? dir fs (entryName key) = some (.file mode content modified) ∧
      CacheEntry.parse? content = some e ∧ e.key = key ∧ e.fingerprint = fingerprint ∧ e.data = data

/-- **A lookup brings nothing new, and what it finds an entry of the directory holds.** -/
theorem get_spec (c : Cache) (key fingerprint : Text) {fs : FileSystem} (hs : Stands c.dir fs)
    (hl : NoLinks c.dir fs) :
    Serves c.dir fs ((c.get key fingerprint).run fs).2 ∧
      NothingNew c.dir fs ((c.get key fingerprint).run fs).2 ∧
        ∀ data, ((c.get key fingerprint).run fs).1 = some data →
          Holds c.dir fs key fingerprint data := by
  have hpath : c.entryPath key = Path.join [c.dir, entryName key] := rfl
  -- a lookup that finds nothing either changes nothing
  have hidle : Serves c.dir fs fs ∧ NothingNew c.dir fs fs ∧
      ∀ data, none = some data → Holds c.dir fs key fingerprint data :=
    ⟨hs.serves_refl, .refl _ _, by simp⟩
  rw [get_run]
  split
  · exact hidle
  rcases hread : (Files.read (c.entryPath key)).run fs with ⟨err | raw, fs'⟩
  · have hfs := read_state (c.entryPath key) fs
    rw [hread] at hfs
    obtain rfl : fs' = fs := hfs
    exact hidle
  rw [hpath] at hread
  obtain ⟨rfl, mode, modified, hshown⟩ := shown?_of_read hl (isName_entryName key) hread
  -- or removes the entry
  have hdrop : Serves c.dir fs' ((Files.remove (c.entryPath key)).run fs').2 ∧
      NothingNew c.dir fs' ((Files.remove (c.entryPath key)).run fs').2 ∧
        ∀ data, none = some data → Holds c.dir fs' key fingerprint data :=
    ⟨serves_remove hs (isName_entryName key) hshown,
      nothingNew_of_shrinks (Files.remove_shrinks _ _), by simp⟩
  simp only
  cases hparse : CacheEntry.parse? raw with
  | none => exact hdrop
  | some e =>
    simp only
    split
    · exact hidle
    rename_i hsame
    rw [not_or, not_not, not_not] at hsame
    split
    · exact hdrop
    · refine ⟨hs.serves_refl, .refl _ _, fun data hdata => ⟨mode, raw, modified, e, hshown, hparse, hsame.1,
        hsame.2, Option.some.inj hdata⟩⟩

/-! ### Storing -/

/-- Whatever file or link the cache directory shows, it showed before or is among the given. -/
def Brings (dir : Text) (New : Text → FileNode → Prop) (fs fs' : FileSystem) : Prop :=
  ∀ name n, Path.IsName name → n ≠ .dir → shown? dir fs' name = some n →
    shown? dir fs name = some n ∨ New name n

theorem NothingNew.brings (h : NothingNew dir fs fs') (New : Text → FileNode → Prop) :
    Brings dir New fs fs' :=
  fun name n hn hd hs => .inl (h name n hn hd hs)

theorem Brings.trans {New : Text → FileNode → Prop} {fs₁ fs₂ fs₃ : FileSystem}
    (h : Brings dir New fs₁ fs₂) (h' : Brings dir New fs₂ fs₃) : Brings dir New fs₁ fs₃ :=
  fun name n hn hd hs => (h' name n hn hd hs).elim (h name n hn hd) .inr

theorem NoLinks.of_nothingNew (hl : NoLinks dir fs) (h : NothingNew dir fs fs') :
    NoLinks dir fs' := by
  intro name t hn ht
  exact hl name t hn (h name _ hn (by simp) ht)

/-- There is nothing at a place, or a file. -/
def Writable (fs : FileSystem) (p : Place) : Prop :=
  fs.node? p ≠ some .dir ∧ ∀ t, fs.node? p ≠ some (.link t)

/-- Writing a file in the cache directory changes that file only. -/
theorem put_entry (hs : Stands dir fs) (hd : LeadsTo dir fs d)
    (hw : Writable fs (d ++ [name])) (mode : Nat) (content : Text) (modified : Time) :
    Serves dir fs (fs.put (d ++ [name]) (.file mode content modified)) ∧
      LeadsTo dir (fs.put (d ++ [name]) (.file mode content modified)) d ∧
        ∀ x, Path.IsName x → shown? dir (fs.put (d ++ [name]) (.file mode content modified)) x =
          if x = name then some (.file mode content modified) else shown? dir fs x := by
  have hnode : ∀ q, (fs.put (d ++ [name]) (.file mode content modified)).node? q =
      if q = d ++ [name] then some (.file mode content modified) else fs.node? q :=
    node?_put (by simp) _
  have hkeeps : fs.Keeps (fs.put (d ++ [name]) (.file mode content modified)) := by
    refine ⟨fun {p} hp => ?_, fun {p t} hp => ?_⟩
    · rw [hnode, if_neg (by rintro rfl; exact hw.1 hp), hp]
    · rw [hnode, if_neg (by rintro rfl; exact hw.2 t hp), hp]
  have hd' := hd.mono hkeeps rfl
  refine ⟨⟨hs.mono (hs.sound.put (hd.node?_eq hs.sound) hw.1 _) hkeeps rfl, hkeeps, rfl,
    fun {q n} hq hn => ?_⟩, hd', fun x hx => ?_⟩
  · rw [hnode] at hq
    split at hq
    · rename_i heq
      exact .inr ⟨d, name, hd', heq⟩
    · exact .inl hq
  rw [hd'.shown? hx, hd.shown? hx, hnode]
  simp only [List.append_cancel_left_eq, List.cons.injEq, and_true]

/-- Moving a file within the cache directory changes the two names only. -/
theorem move_entry (hs : Stands dir fs) (hd : LeadsTo dir fs d) {source target : Text} {mode : Nat}
    {content : Text} {modified : Time}
    (hsource : fs.node? (d ++ [source]) = some (.file mode content modified))
    (hw : Writable fs (d ++ [target])) :
    Serves dir fs (fs.moved (d ++ [source]) (d ++ [target])) ∧
      ∀ x, Path.IsName x → shown? dir (fs.moved (d ++ [source]) (d ++ [target])) x =
        if x = target then some (.file mode content modified)
        else if x = source then none else shown? dir fs x := by
  have hnode : ∀ q, (fs.moved (d ++ [source]) (d ++ [target])).node? q =
      if q = d ++ [target] then some (.file mode content modified)
      else if q = d ++ [source] then none else fs.node? q :=
    node?_moved hs.sound hsource (by simp)
  have hkeeps : fs.Keeps (fs.moved (d ++ [source]) (d ++ [target])) := by
    refine ⟨fun {p} hp => ?_, fun {p t} hp => ?_⟩
    · rw [hnode, if_neg (by rintro rfl; exact hw.1 hp),
        if_neg (by rintro rfl; simp [hsource] at hp), hp]
    · rw [hnode, if_neg (by rintro rfl; exact hw.2 t hp),
        if_neg (by rintro rfl; simp [hsource] at hp), hp]
  have hd' := hd.mono hkeeps rfl
  refine ⟨⟨hs.mono (hs.sound.moved hsource (hd.node?_eq hs.sound) hw.1) hkeeps rfl, hkeeps, rfl,
    fun {q n} hq hn => ?_⟩, fun x hx => ?_⟩
  · rw [hnode] at hq
    split at hq
    · rename_i heq
      exact .inr ⟨d, target, hd', heq⟩
    · split at hq
      · simp at hq
      · exact .inl hq
  rw [hd'.shown? hx, hd.shown? hx, hnode]
  simp only [List.append_cancel_left_eq, List.cons.injEq, and_true]

/-- The name of a temporary file. -/
def tempName (i : Nat) : Text := ".entry-" ++ Text.ofNat i

theorem isName_tempName (i : Nat) : Path.IsName (tempName i) :=
  Files.isName_numbered (by decide) i

/-- A temporary file is not taken for an entry. -/
theorem tempName_ne_entryName (i : Nat) (key : Text) : tempName i ≠ entryName key := by
  intro h
  obtain ⟨b, hb⟩ : ∃ b, (Text.ofNat i).getLast? = some b :=
    ⟨_, List.getLast?_eq_some_getLast (Text.ofNat_ne_nil i)⟩
  have hdigit := Text.digits_ofNat i b (List.mem_of_getLast? hb)
  have hlast : (tempName i).getLast? = some b := by rw [tempName, List.getLast?_append, hb]; rfl
  have hjson : (entryName key).getLast? = some (Text.byte 'n') := by
    rw [entryName, List.getLast?_append]
    rfl
  rw [h, hjson] at hlast
  rw [← Option.some.inj hlast] at hdigit
  exact absurd hdigit (by decide)

theorem freeName_eq (fs : FileSystem) (dir : Text) :
    ∃ i, Files.freeName fs dir ".entry-" = Path.join [dir, tempName i] := ⟨_, rfl⟩

/-- Puts the text of an entry into the file of its key. -/
def replace (c : Cache) (key raw : Text) : Files Unit := do
  Files.makeDirs c.dir
  let temp ← Files.createTemp c.dir ".entry-"
  Files.write temp raw 0o600
  Files.rename temp (c.entryPath key)

theorem set_run (c : Cache) (key fingerprint data : Text) (fs : FileSystem) :
    (c.set key fingerprint data).run fs =
      if c.enabled = false then (.ok (), fs)
      else
        match CacheEntry.encode? { key, fingerprint, stored := fs.clock, data } with
        | none => (.error (.other "entry cannot be encoded"), fs)
        | some raw => (FileTask.ofFiles (replace c key raw)).run fs := by
  cases henabled : c.enabled with
  | false =>
    simp only [set, henabled]
    rfl
  | true =>
    simp only [set, henabled]
    change (match CacheEntry.encode? { key, fingerprint, stored := fs.clock, data } with
      | none => throw (.other "entry cannot be encoded")
      | some raw => FileTask.ofFiles (replace c key raw) : FileTask Unit).run fs = _
    cases CacheEntry.encode? { key, fingerprint, stored := fs.clock, data } <;> rfl

theorem set_state (c : Cache) (key fingerprint data : Text) (fs : FileSystem) :
    ((c.set key fingerprint data).run fs).2 =
      if c.enabled = false then fs
      else
        match CacheEntry.encode? { key, fingerprint, stored := fs.clock, data } with
        | none => fs
        | some raw => ((replace c key raw).run fs).2 := by
  rw [set_run]
  split
  · rfl
  · cases CacheEntry.encode? { key, fingerprint, stored := fs.clock, data } with
    | none => rfl
    | some raw =>
      simp only [FileTask.ofFiles_run]
      rcases (replace c key raw).run fs with ⟨e | u, fs'⟩ <;> rfl

theorem write_entry (hd : LeadsTo dir fs d) (hn : Path.IsName name) {mode : Nat} {content : Text}
    {modified : Time} (h : fs.node? (d ++ [name]) = some (.file mode content modified))
    (raw : Text) :
    (Files.write (Path.join [dir, name]) raw 0o600).run fs =
      (.ok (), fs.put (d ++ [name]) (.file mode raw fs.clock)) := by
  rw [Files.write_run, hd.locate_true hn (by simp [h]), h]

/-- A new file of the cache directory is written, and no other name shows anything else. -/
theorem write_new (hs : Stands dir fs) (hd : LeadsTo dir fs d) (hn : Path.IsName name)
    (hnone : fs.node? (d ++ [name]) = none) (mode : Nat) (raw : Text) :
    ∃ fs', (Files.write (Path.join [dir, name]) raw 0o600).run
        (fs.put (d ++ [name]) (.file mode [] fs.clock)) = (.ok (), fs') ∧
      Serves dir fs fs' ∧ LeadsTo dir fs' d ∧ ∃ modified, ∀ x, Path.IsName x →
        shown? dir fs' x =
          if x = name then some (.file mode raw modified) else shown? dir fs x := by
  have hfree : Writable fs (d ++ [name]) := ⟨by simp [hnone], by simp [hnone]⟩
  obtain ⟨hs₁, hd₁, hshown₁⟩ := put_entry hs hd hfree mode [] fs.clock
  have hnode₁ := (hd₁.shown? hn).symm.trans ((hshown₁ _ hn).trans (if_pos rfl))
  have hmade : Writable (fs.put (d ++ [name]) (.file mode [] fs.clock)) (d ++ [name]) :=
    ⟨by simp [hnode₁], by simp [hnode₁]⟩
  obtain ⟨hs₂, hd₂, hshown₂⟩ := put_entry hs₁.stands hd₁ hmade mode raw fs.clock
  refine ⟨_, write_entry hd₁ hn hnode₁ raw, hs₁.trans hs₂, hd₂, fs.clock, fun x hx => ?_⟩
  refine (hshown₂ x hx).trans ?_
  split
  · rfl
  · rename_i hne
    rw [hshown₁ x hx, if_neg hne]

/-- A file in the cache directory is moved into the place of another unless that is taken by a
directory. -/
theorem rename_entry (hl : NoLinks dir fs) (hd : LeadsTo dir fs d) {target : Text}
    (hn : Path.IsName name) (ht : Path.IsName target) {mode : Nat} {content : Text}
    {modified : Time} (h : fs.node? (d ++ [name]) = some (.file mode content modified)) :
    ((Files.rename (Path.join [dir, name]) (Path.join [dir, target])).run fs).2 = fs ∨
      (Writable fs (d ++ [target]) ∧
        ((Files.rename (Path.join [dir, name]) (Path.join [dir, target])).run fs).2 =
          fs.moved (d ++ [name]) (d ++ [target])) := by
  have hfind : fs.find false (Path.join [dir, name]) =
      .ok (d ++ [name], .file mode content modified) := by
    rw [FileSystem.find, hd.locate hn, h]
  rw [Files.rename_run, hfind, hd.locate ht]
  rcases hnode : fs.node? (d ++ [target]) with _ | _ | _ | t
  · exact .inr ⟨⟨by simp [hnode], by simp [hnode]⟩, rfl⟩
  · exact .inl rfl
  · exact .inr ⟨⟨by simp [hnode], by simp [hnode]⟩, rfl⟩
  · exact absurd ((hd.shown? ht).trans hnode) (hl target t ht)

/-- What storing an entry may bring: temporary files, and the file of the key with the entry. -/
def Stored (key raw name : Text) (n : FileNode) : Prop :=
  ∃ mode content modified, n = .file mode content modified ∧
    ((∃ i, name = tempName i) ∨ (name = entryName key ∧ content = raw))

theorem NoLinks.of_brings {key raw : Text} (hl : NoLinks dir fs)
    (h : Brings dir (Stored key raw) fs fs') : NoLinks dir fs' := by
  intro name t hn ht
  rcases h name _ hn (by simp) ht with hold | ⟨_, _, _, hfile, -⟩
  · exact hl name t hn hold
  · simp at hfile

/-- Either no temporary file is made and nothing changes, or an empty one is. -/
theorem createTemp_entry (dir : Text) (fs : FileSystem) :
    (∃ e, (Files.createTemp dir ".entry-").run fs = (.error e, fs)) ∨
      ∃ i d, LeadsTo dir fs d ∧ fs.node? (d ++ [tempName i]) = none ∧
        (Files.createTemp dir ".entry-").run fs =
          (.ok (Path.join [dir, tempName i]),
            fs.put (d ++ [tempName i]) (.file (fs.granted 0o600) [] fs.clock)) := by
  obtain ⟨i, hi⟩ := freeName_eq fs dir
  rw [Files.createTemp_run, if_neg (by decide), hi]
  rcases hloc : fs.locate false (Path.join [dir, tempName i]) with e | ⟨q, _ | n⟩
  · exact .inl ⟨_, rfl⟩
  · obtain ⟨d, hd⟩ := leadsTo_of_locate (isName_tempName i) hloc
    rw [hd.locate (isName_tempName i)] at hloc
    simp only [Except.ok.injEq, Prod.mk.injEq] at hloc
    obtain ⟨rfl, hnone⟩ := hloc
    exact .inr ⟨i, d, hd, hnone, rfl⟩
  · exact .inl ⟨_, rfl⟩

/-- Moving a file into the place of an entry, unless a directory is there, brings that entry. -/
theorem rename_spec (hs : Stands dir fs) (hl : NoLinks dir fs) (hd : LeadsTo dir fs d)
    (hn : Path.IsName name) {mode : Nat} {raw : Text} {modified : Time}
    (h : fs.node? (d ++ [name]) = some (.file mode raw modified)) (key : Text) :
    Serves dir fs
        ((Files.rename (Path.join [dir, name]) (Path.join [dir, entryName key])).run fs).2 ∧
      Brings dir (Stored key raw) fs
        ((Files.rename (Path.join [dir, name]) (Path.join [dir, entryName key])).run fs).2 := by
  rcases rename_entry hl hd hn (isName_entryName key) h with hstay | ⟨hw, hmove⟩
  · rw [hstay]
    exact ⟨hs.serves_refl, (NothingNew.refl _ _).brings _⟩
  obtain ⟨hserves, hshown⟩ := move_entry hs hd h hw
  rw [hmove]
  refine ⟨hserves, fun x n hx _ hs => ?_⟩
  rw [hshown x hx] at hs
  split at hs
  · rename_i hx'
    exact .inr ⟨_, _, _, (Option.some.inj hs).symm, .inr ⟨hx', rfl⟩⟩
  · split at hs
    · simp at hs
    · exact .inl hs

theorem replace_spec (c : Cache) (key raw : Text) {fs : FileSystem} (hs : Stands c.dir fs)
    (hl : NoLinks c.dir fs) :
    Serves c.dir fs ((replace c key raw).run fs).2 ∧
      Brings c.dir (Stored key raw) fs ((replace c key raw).run fs).2 := by
  have hs₁ := serves_makeDirs hs
  have hnew := (makeDirs_nothingNew hs).brings (Stored key raw)
  rw [replace, run_bind]
  generalize (Files.makeDirs c.dir).run fs = made at hs₁ hnew ⊢
  obtain ⟨e | u, fs₁⟩ := made
  · exact ⟨hs₁, hnew⟩
  simp only at hs₁ hnew ⊢
  rw [run_bind]
  rcases createTemp_entry c.dir fs₁ with ⟨e, htemp⟩ | ⟨i, d, hd, hnone, htemp⟩
  · rw [htemp]
    exact ⟨hs₁, hnew⟩
  have hn := isName_tempName i
  obtain ⟨fs₂, hwrite, hs₂, hd₂, modified, hshown⟩ := write_new hs₁.stands hd hn hnone _ raw
  have hbrings : Brings c.dir (Stored key raw) fs fs₂ := by
    intro x n hx hdir hs
    rw [hshown x hx] at hs
    split at hs
    · rename_i heq
      exact .inr ⟨_, _, _, (Option.some.inj hs).symm, .inl ⟨i, heq⟩⟩
    · exact hnew x n hx hdir hs
  have hnode := (hd₂.shown? hn).symm.trans ((hshown _ hn).trans (if_pos rfl))
  obtain ⟨hs₃, hbrings₃⟩ := rename_spec hs₂.stands (hl.of_brings hbrings) hd₂ hn hnode key
  rw [htemp]
  simp only
  rw [run_bind, hwrite]
  exact ⟨hs₁.trans (hs₂.trans hs₃), hbrings.trans hbrings₃⟩

/-- **Storing an entry brings temporary files and the file of the key, with the entry in it.** -/
theorem set_spec (c : Cache) (key fingerprint data : Text) {fs : FileSystem} (hs : Stands c.dir fs)
    (hl : NoLinks c.dir fs) :
    Serves c.dir fs ((c.set key fingerprint data).run fs).2 ∧
      Brings c.dir (fun name n => ∃ raw,
          CacheEntry.encode? { key, fingerprint, stored := fs.clock, data } = some raw ∧
            Stored key raw name n)
        fs ((c.set key fingerprint data).run fs).2 := by
  rw [set_state]
  split
  · exact ⟨hs.serves_refl, (NothingNew.refl _ _).brings _⟩
  split
  · exact ⟨hs.serves_refl, (NothingNew.refl _ _).brings _⟩
  rename_i raw hraw
  obtain ⟨hserves, hbrings⟩ := replace_spec c key raw hs hl
  refine ⟨hserves, fun name n hn hd hshown => ?_⟩
  exact (hbrings name n hn hd hshown).imp_right fun hstored => ⟨raw, hraw, hstored⟩

end Cache

end MetricHistory
