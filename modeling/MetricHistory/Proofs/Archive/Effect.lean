import MetricHistory.Archive.Extract
import MetricHistory.Proofs.FileSystem.Plant

/-!
# The effect of one archive entry

Recreating an entry looks at the names of its path one after the other, as the operating system
does: through directories and links.

* `Archive.Lands` : the first place that recreating an entry changes.
* `Archive.extractEntry_lands` : an entry that lands somewhere changes that place and what is new
  below it, and nothing else.
* `Archive.extractEntry_idle` : an entry that lands nowhere changes nothing.
-/

namespace MetricHistory

namespace Archive

open FileSystem

variable {fs : FileSystem} {xs ys : List Text} {c : Text} {left : Nat} {d : Place} {r : Bool}

theorem writeFile_missing (hs : fs.Sound) (hx : Reaches fs linkLimit (fs.origin r) xs left d)
    (hnone : fs.node? (d ++ [c]) = none) (hn : Path.Normal.Proper ⟨r, xs ++ c :: ys⟩)
    (hc : c ≠ Path.dotdot) (content : Text) (mode : Nat) :
    (writeFile (Path.Normal.render ⟨r, xs ++ c :: ys⟩) content mode).run fs =
      (.ok (), fs.plant d (c :: ys)
        (.file (fs.granted (permissions mode)) content fs.clock)) := by
  obtain ⟨hdirs, hfree⟩ := Files.makeDirs_dir_missing hs hx hnone hn hc
  rw [writeFile, run_bind, hdirs]
  simp only
  rw [Files.write_run, hfree]
  simp [plant]

theorem makeLink_missing (hs : fs.Sound) (hx : Reaches fs linkLimit (fs.origin r) xs left d)
    (hnone : fs.node? (d ++ [c]) = none) (hn : Path.Normal.Proper ⟨r, xs ++ c :: ys⟩)
    (hc : c ≠ Path.dotdot) (link : Text) :
    (makeLink (Path.Normal.render ⟨r, xs ++ c :: ys⟩) link).run fs =
      (.ok (), fs.plant d (c :: ys) (.link link)) := by
  obtain ⟨hdirs, hfree⟩ := Files.makeDirs_dir_missing hs hx hnone hn hc
  rw [makeLink, run_bind, hdirs]
  simp only
  rw [Files.symlink_run, hfree]
  simp [plant]

/-- Where a walk leads to a directory, something is there also when its last link is not
followed. -/
theorem exists_walk_false {links : Nat} {at_ : Place} {ps : List Text}
    (h : Reaches fs links at_ ps left d) :
    ∃ p m, fs.walk false links at_ ps = .ok (p, some m) := by
  rcases List.eq_nil_or_concat ps with rfl | ⟨init, c, rfl⟩
  · exact ⟨at_, .dir, by rw [walk]⟩
  · rw [List.concat_eq_append] at h ⊢
    obtain ⟨l, a, h₁, h₂⟩ := h.split
    rw [h₁.walk_append (.inr (by simp))]
    cases h₂ with
    | stay => exact ⟨a, .dir, by simp only [walk, if_true]⟩
    | up =>
      refine ⟨a.dropLast, .dir, ?_⟩
      rw [walk, if_neg (by decide), if_pos rfl, walk]
    | down hd hdd hn => exact ⟨_, .dir, by rw [walk_name hd hdd, hn]⟩
    | follow hd hdd hn => exact ⟨_, _, by rw [walk_name hd hdd, hn]; rfl⟩

theorem makeDirs_dir_there {n : Path.Normal} (hn : n.Proper)
    (h : Reaches fs linkLimit (fs.origin n.rooted) n.parts left d) :
    (Files.makeDirs (Path.dir n.render)).run fs = (.ok (), fs) := by
  obtain ⟨r, ps⟩ := n
  rcases List.eq_nil_or_concat ps with rfl | ⟨init, c, rfl⟩
  · have hdir : Path.dir (Path.Normal.render ⟨r, []⟩) = Path.Normal.render ⟨r, []⟩ := by
      cases r <;> decide
    rw [hdir]
    exact Files.makeDirs_there hn h
  · rw [List.concat_eq_append] at hn h ⊢
    obtain ⟨l, a, h₁, -⟩ := h.split
    rw [Path.Normal.dir_render hn]
    exact Files.makeDirs_there hn.init h₁

theorem writeFile_there {n : Path.Normal} (hn : n.Proper)
    (h : Reaches fs linkLimit (fs.origin n.rooted) n.parts left d) (content : Text) (mode : Nat) :
    ∃ e, (writeFile n.render content mode).run fs = (.error e, fs) := by
  rw [writeFile, run_bind, makeDirs_dir_there hn h]
  simp only
  rw [Files.write_run, locate_render hn, h.walk_eq]
  exact ⟨_, rfl⟩

theorem makeLink_there {n : Path.Normal} (hn : n.Proper)
    (h : Reaches fs linkLimit (fs.origin n.rooted) n.parts left d) (link : Text) :
    ∃ e, (makeLink n.render link).run fs = (.error e, fs) := by
  obtain ⟨p, m, hw⟩ := exists_walk_false h
  rw [makeLink, run_bind, makeDirs_dir_there hn h]
  simp only
  rw [Files.symlink_run, locate_render hn, hw]
  exact ⟨_, rfl⟩

/-- A file that is to be written where something is overwrites what is at the end of the links
there, or is not written. -/
theorem writeFile_blocked {m : FileNode} (hx : Reaches fs linkLimit (fs.origin r) xs left d)
    (hc : c ≠ Path.dotdot) (hnode : fs.node? (d ++ [c]) = some m)
    (hno : ∀ left' d', ¬ Reaches fs linkLimit (fs.origin r) (xs ++ [c]) left' d')
    (hn : Path.Normal.Proper ⟨r, xs ++ c :: ys⟩) (content : Text) (mode : Nat) :
    (∃ e, (writeFile (Path.Normal.render ⟨r, xs ++ c :: ys⟩) content mode).run fs =
        (.error e, fs)) ∨
      (ys = [] ∧ ∃ q old mode', fs.walk true left d [c] = .ok (q, old) ∧
        (old = none ∨ ∃ a b t, old = some (.file a b t)) ∧
        (writeFile (Path.Normal.render ⟨r, xs ++ c :: ys⟩) content mode).run fs =
          (.ok (), fs.put q (.file mode' content fs.clock))) := by
  rcases List.eq_nil_or_concat ys with rfl | ⟨init, e, rfl⟩
  · rw [writeFile, run_bind, Path.Normal.dir_render hn, Files.makeDirs_there hn.init hx]
    simp only
    rw [Files.write_run, locate_render hn]
    have hw : fs.walk true linkLimit (fs.origin r) (xs ++ [c]) = fs.walk true left d [c] :=
      hx.walk_append (.inl rfl)
    simp only [hw]
    rcases fs.walk true left d [c] with e | ⟨q, _ | _ | ⟨a, b, t⟩ | l⟩
    · exact .inl ⟨_, rfl⟩
    · exact .inr ⟨trivial, q, none, _, rfl, .inl rfl, rfl⟩
    · exact .inl ⟨_, rfl⟩
    · exact .inr ⟨trivial, q, _, a, rfl, .inr ⟨a, b, t, rfl⟩, rfl⟩
    · exact .inl ⟨_, rfl⟩
  · left
    rw [List.concat_eq_append] at hn ⊢
    have hparts : xs ++ c :: (init ++ [e]) = (xs ++ c :: init) ++ [e] := by simp
    rw [hparts] at hn ⊢
    obtain ⟨err, herr⟩ := Files.makeDirs_blocked hx hc hnode hno hn.init
    rw [writeFile, run_bind, Path.Normal.dir_render hn, herr]
    exact ⟨err, rfl⟩

/-- A link is not made where something is. -/
theorem makeLink_blocked {m : FileNode} (hx : Reaches fs linkLimit (fs.origin r) xs left d)
    (hc : c ≠ Path.dotdot) (hnode : fs.node? (d ++ [c]) = some m)
    (hno : ∀ left' d', ¬ Reaches fs linkLimit (fs.origin r) (xs ++ [c]) left' d')
    (hn : Path.Normal.Proper ⟨r, xs ++ c :: ys⟩) (link : Text) :
    ∃ e, (makeLink (Path.Normal.render ⟨r, xs ++ c :: ys⟩) link).run fs = (.error e, fs) := by
  rcases List.eq_nil_or_concat ys with rfl | ⟨init, e, rfl⟩
  · have hd : c ≠ Path.dot := hn.part_ne_dot (by simp)
    have hw : fs.walk false linkLimit (fs.origin r) (xs ++ [c]) = .ok (d ++ [c], some m) := by
      rw [hx.walk_append (.inr (by simp)), walk_name hd hc, hnode]
      cases m <;> rfl
    rw [makeLink, run_bind, Path.Normal.dir_render hn, Files.makeDirs_there hn.init hx]
    simp only
    rw [Files.symlink_run, locate_render hn, hw]
    exact ⟨_, rfl⟩
  · rw [List.concat_eq_append] at hn ⊢
    have hparts : xs ++ c :: (init ++ [e]) = (xs ++ c :: init) ++ [e] := by simp
    rw [hparts] at hn ⊢
    obtain ⟨err, herr⟩ := Files.makeDirs_blocked hx hc hnode hno hn.init
    rw [makeLink, run_bind, Path.Normal.dir_render hn, herr]
    exact ⟨err, rfl⟩

/-! ### Where an entry lands -/

/-- The destination leads to the directory `root` and leaves `spare` links to follow. -/
structure Leads (fs : FileSystem) (dest : Text) (spare : Nat) (root : Place) : Prop where
  named : dest ≠ []
  reaches : Reaches fs linkLimit (fs.origin (Path.normalize dest).rooted)
    (Path.normalize dest).parts spare root

/-- The entry is to be recreated at the path with the given names below the destination. -/
structure Asks (dest : Text) (e : ArchiveEntry) (names : List Text) : Prop where
  path : Path.safeJoin? dest e.name = some (Path.below dest names)
  isName : ∀ c ∈ names, Path.IsName c
  kind : e.kind ≠ .special
  inside : e.kind = .symlink → Path.linkInside dest e.name e.link = true

/-- The first place that recreating an entry changes: the first one on its path at which nothing
is, or the one at the end of its path if a file can be written there. -/
def Lands (fs : FileSystem) (dest : Text) (e : ArchiveEntry) (names : List Text) (q : Place) :
    Prop :=
  (∃ zs, zs <+: names ∧ fs.locate false (Path.below dest zs) = .ok (q, none)) ∨
    (e.kind = .file ∧ ∃ old, fs.locate true (Path.below dest names) = .ok (q, old) ∧
      old ≠ some .dir)

/-- The node that an entry becomes in a file system. -/
def node (e : ArchiveEntry) (fs : FileSystem) : FileNode :=
  match e.kind with
  | .file => .file (fs.granted (permissions e.mode)) e.content fs.clock
  | .symlink => .link e.link
  | _ => .dir

theorem node_congr {fs fs' : FileSystem} (hclock : fs'.clock = fs.clock) (hmask : fs'.mask = fs.mask)
    (e : ArchiveEntry) : node e fs' = node e fs := by
  unfold node
  rw [hclock, granted_congr hmask]

/-- What recreating an entry that lands at `q` makes of a file system. -/
inductive Change (fs : FileSystem) (e : ArchiveEntry) (q : Place) : FileSystem → Prop
  | plant {d : Place} {c : Text} (ys : List Text) (hq : q = d ++ [c])
      (hd : fs.node? d = some .dir) (hnone : fs.node? (d ++ [c]) = none) :
      Change fs e q (fs.plant d (c :: ys) (node e fs))
  | overwrite {d : Place} {c : Text} (mode : Nat) (hkind : e.kind = .file) (hq : q = d ++ [c])
      (hd : fs.node? d = some .dir)
      (hold : fs.node? q = none ∨ ∃ a b t, fs.node? q = some (.file a b t)) :
      Change fs e q (fs.put q (.file mode e.content fs.clock))

variable {dest : Text} {spare : Nat} {root q : Place} {e : ArchiveEntry} {names : List Text}

theorem Leads.locate_below (h : Leads fs dest spare root) (hn : ∀ c ∈ names, Path.IsName c)
    {follow : Bool} (hf : follow = true ∨ names ≠ []) :
    fs.locate follow (Path.below dest names) = fs.walk follow spare root names := by
  rw [Path.below, locate_render (Path.proper_below dest hn)]
  exact h.reaches.walk_append hf

theorem Leads.dir (h : Leads fs dest spare root) (hs : fs.Sound) : fs.node? root = some .dir :=
  h.reaches.dir hs (hs.dir_origin _)

theorem Leads.locate_none (h : Leads fs dest spare root) (hn : ∀ c ∈ names, Path.IsName c)
    (hw : fs.locate false (Path.below dest names) = .ok (q, none)) :
    ∃ init c left d, names = init ++ [c] ∧ Reaches fs spare root init left d ∧
      fs.node? (d ++ [c]) = none ∧ q = d ++ [c] := by
  rcases List.eq_nil_or_concat names with rfl | ⟨init, c, rfl⟩
  · -- the destination itself is there
    rw [Path.below, locate_render (Path.proper_below dest hn)] at hw
    simp only [List.append_nil] at hw
    obtain ⟨p, m, hm⟩ := exists_walk_false h.reaches
    rw [hm] at hw
    simp at hw
  · rw [List.concat_eq_append] at hw hn ⊢
    rw [h.locate_below hn (.inr (by simp))] at hw
    obtain ⟨left, d, h₁, h₂⟩ := reaches_of_walk_ok hw
    have hc := hn c (by simp)
    rw [walk_name hc.ne_dot hc.ne_dotdot] at h₂
    split at h₂
    · simp at h₂
    · simp only [Except.ok.injEq, Prod.mk.injEq] at h₂
      exact ⟨init, c, left, d, rfl, h₁, h₂.2, h₂.1.symm⟩

/-- The action that recreates an entry at a path. -/
def recreate (path : Text) (e : ArchiveEntry) : Files Unit :=
  match e.kind with
  | .file => writeFile path e.content e.mode
  | .symlink => makeLink path e.link
  | _ => Files.makeDirs path

theorem extractEntry_asks (h : Asks dest e names) :
    extractEntry dest e = FileTask.ofFiles (recreate (Path.below dest names) e) := by
  have ht : target dest e.name = pure (Path.below dest names) := by
    rw [target, h.path]
  cases hk : e.kind with
  | directory => simp only [extractEntry, recreate, hk, ht, pure_bind]
  | file => simp only [extractEntry, recreate, hk, ht, pure_bind]
  | symlink => simp only [extractEntry, recreate, hk, ht, pure_bind, h.inside hk, if_true]
  | special => exact absurd hk h.kind

theorem extractEntry_leftOut {path : Text} (hk : e.kind = .symlink)
    (hp : Path.safeJoin? dest e.name = some path)
    (hl : Path.linkInside dest e.name e.link = false) :
    (extractEntry dest e).run fs = (.ok (), fs) := by
  have ht : target dest e.name = pure path := by rw [target, hp]
  simp only [extractEntry, hk, ht, pure_bind, hl]
  rfl

/-- An entry that is not to be recreated changes nothing. -/
theorem extractEntry_skips (hd : dest ≠ []) (h : ∀ names, ¬ Asks dest e names) :
    ∃ r, (extractEntry dest e).run fs = (r, fs) := by
  by_cases hspecial : e.kind = .special
  · exact ⟨.ok (), by simp only [extractEntry, hspecial]; rfl⟩
  cases hjoin : Path.safeJoin? dest e.name with
  | none =>
    have ht : target dest e.name = throw (.unsafePath e.name) := by rw [target, hjoin]
    refine ⟨.error (.unsafePath e.name), ?_⟩
    cases hk : e.kind with
    | special => exact absurd hk hspecial
    | _ => simp only [extractEntry, hk, ht]; rfl
  | some path =>
    obtain ⟨names, rfl, hnames⟩ := Path.safeJoin?_eq_some hd hjoin
    -- the only way left is a link that leads out
    have hlink : e.kind = .symlink ∧ Path.linkInside dest e.name e.link = false := by
      by_contra hno
      refine h names ⟨hjoin, hnames, hspecial, fun hk => ?_⟩
      simpa [hk] using hno
    exact ⟨.ok (), extractEntry_leftOut hlink.1 hjoin hlink.2⟩

/-- Where nothing is yet, an entry is planted. -/
theorem recreate_missing (hs : fs.Sound) (hx : Reaches fs linkLimit (fs.origin r) xs left d)
    (hnone : fs.node? (d ++ [c]) = none) (hn : Path.Normal.Proper ⟨r, xs ++ c :: ys⟩)
    (hc : c ≠ Path.dotdot) :
    (recreate (Path.Normal.render ⟨r, xs ++ c :: ys⟩) e).run fs =
      (.ok (), fs.plant d (c :: ys) (node e fs)) := by
  unfold recreate node
  split
  · exact writeFile_missing hs hx hnone hn hc e.content e.mode
  · exact makeLink_missing hs hx hnone hn hc e.link
  · rw [plant_dir (by simp)]
    exact Files.makeDirs_missing hs hx hc hnone hn

theorem extractEntry_plant (hs : fs.Sound) (hl : Leads fs dest spare root)
    (ha : Asks dest e (xs ++ c :: ys)) (hx : Reaches fs spare root xs left d)
    (hnone : fs.node? (d ++ [c]) = none) :
    (extractEntry dest e).run fs = (.ok (), fs.plant d (c :: ys) (node e fs)) := by
  have hc := ha.isName c (by simp)
  have hn := Path.proper_below dest ha.isName
  rw [← List.append_assoc] at hn
  have hrun := recreate_missing (e := e) hs (hl.reaches.trans hx) hnone hn hc.ne_dotdot
  rw [extractEntry_asks ha, FileTask.ofFiles_run, Path.below, ← List.append_assoc, hrun]

/-- A file is written at the end of its path, links followed.  One that is there keeps its bits. -/
theorem extractEntry_overwrite (hl : Leads fs dest spare root) (ha : Asks dest e names)
    (hkind : e.kind = .file) {old : Option FileNode}
    (hw : fs.walk true spare root names = .ok (q, old))
    (hold : old = none ∨ ∃ a b t, old = some (.file a b t)) :
    ∃ mode, (extractEntry dest e).run fs = (.ok (), fs.put q (.file mode e.content fs.clock)) ∧
      ∀ a b t, old = some (.file a b t) → mode = a := by
  rcases List.eq_nil_or_concat names with rfl | ⟨init, c, rfl⟩
  · simp only [walk, Except.ok.injEq, Prod.mk.injEq] at hw
    simp [← hw.2] at hold
  rw [List.concat_eq_append] at ha hw
  obtain ⟨l, d, h₁, h₂⟩ := reaches_of_walk_ok hw
  have hn := Path.proper_below dest ha.isName
  rw [← List.append_assoc] at hn
  have hall := hl.reaches.trans h₁
  have hwalk : fs.walk true linkLimit (fs.origin (Path.normalize dest).rooted)
      ((Path.normalize dest).parts ++ init ++ [c]) = .ok (q, old) := by
    rw [hall.walk_append (.inl rfl), h₂]
  have hrun : ∃ mode, (writeFile (Path.below dest (init ++ [c])) e.content e.mode).run fs =
      (.ok (), fs.put q (.file mode e.content fs.clock)) ∧
        ∀ a b t, old = some (.file a b t) → mode = a := by
    rw [Path.below, ← List.append_assoc, writeFile, run_bind, Path.Normal.dir_render hn,
      Files.makeDirs_there hn.init hall]
    simp only
    rw [Files.write_run, locate_render hn]
    simp only [hwalk]
    rcases hold with rfl | ⟨a, b, t, rfl⟩
    · exact ⟨_, rfl, by simp⟩
    · refine ⟨a, rfl, fun a' b' t' h => ?_⟩
      exact (FileNode.file.inj (Option.some.inj h)).1
  obtain ⟨mode, hrun, hmode⟩ := hrun
  refine ⟨mode, ?_, hmode⟩
  rw [extractEntry_asks ha, FileTask.ofFiles_run]
  simp only [recreate, hkind, hrun]

/-- An entry that lands somewhere is recreated there. -/
theorem extractEntry_lands (hs : fs.Sound) (hl : Leads fs dest spare root)
    (ha : Asks dest e names) (h : Lands fs dest e names q) :
    ∃ fs', (extractEntry dest e).run fs = (.ok (), fs') ∧ Change fs e q fs' := by
  have hroot := hl.dir hs
  rcases h with ⟨zs, ⟨ws, rfl⟩, hw⟩ | ⟨hkind, old, hw, hold⟩
  · obtain ⟨init, c, l, d, rfl, hx, hnone, rfl⟩ :=
      hl.locate_none (fun c hc => ha.isName c (by simp [hc])) hw
    rw [List.append_assoc] at ha
    exact ⟨_, extractEntry_plant hs hl ha hx hnone, .plant ws rfl (hx.dir hs hroot) hnone⟩
  · rw [hl.locate_below ha.isName (.inl rfl)] at hw
    obtain ⟨hnode, hlink, d, c, hq, hd⟩ := walk_end hs hroot hw hold
    have hfile : old = none ∨ ∃ a b t, old = some (.file a b t) := by
      rcases old with _ | _ | ⟨a, b, t⟩ | t
      · exact .inl rfl
      · exact absurd rfl hold
      · exact .inr ⟨a, b, t, rfl⟩
      · exact absurd rfl (hlink rfl t)
    obtain ⟨mode, hrun, -⟩ := extractEntry_overwrite hl ha hkind hw hfile
    exact ⟨_, hrun, .overwrite mode hkind hq hd (by rw [hnode]; exact hfile)⟩

/-- An entry that lands nowhere changes nothing. -/
theorem extractEntry_idle (hl : Leads fs dest spare root)
    (ha : Asks dest e names) (h : ∀ q, ¬ Lands fs dest e names q) :
    ∃ r, (extractEntry dest e).run fs = (r, fs) := by
  have hn := Path.proper_below dest ha.isName
  have done : ∀ r, (recreate (Path.below dest names) e).run fs = (r, fs) →
      ∃ r, (extractEntry dest e).run fs = (r, fs) := by
    rintro (err | u) hr
    · exact ⟨_, by rw [extractEntry_asks ha, FileTask.ofFiles_run, hr]⟩
    · exact ⟨_, by rw [extractEntry_asks ha, FileTask.ofFiles_run, hr]⟩
  -- the names lead down to a directory, to a free place, or to something in the way
  rcases course fs spare root fun c hc => (ha.isName c hc).ne_dot with ⟨left, d, hr⟩ |
    ⟨xs, c, ys, left, d, rfl, hx, hc, hnone⟩ | ⟨xs, c, ys, left, d, m, rfl, hx, hc, hnode, hno⟩
  · have hall := hl.reaches.trans hr
    unfold recreate at done
    split at done
    · obtain ⟨err, herr⟩ := writeFile_there hn hall e.content e.mode
      exact done _ herr
    · obtain ⟨err, herr⟩ := makeLink_there hn hall e.link
      exact done _ herr
    · exact done _ (Files.makeDirs_there hn hall)
  · -- the first free place would be where the entry lands
    have hcn := ha.isName c (by simp)
    refine absurd (.inl ⟨xs ++ [c], ⟨ys, by simp⟩, ?_⟩) (h (d ++ [c]))
    rw [hl.locate_below (fun a ha' => ha.isName a (by simp at ha' ⊢; tauto)) (.inr (by simp)),
      hx.walk_append (.inr (by simp)), walk_name hcn.ne_dot hcn.ne_dotdot, hnone]
  · have hall := hl.reaches.trans hx
    have hblocked : ∀ left' d', ¬ Reaches fs linkLimit (fs.origin (Path.normalize dest).rooted)
        ((Path.normalize dest).parts ++ xs ++ [c]) left' d' := by
      intro left' d' hr
      rw [List.append_assoc] at hr
      obtain ⟨l, a, h₁, h₂⟩ := hr.split
      obtain ⟨rfl, rfl⟩ := hl.reaches.unique h₁
      exact hno _ _ h₂
    simp only [← List.append_assoc] at hn
    unfold recreate Path.below at done
    simp only [← List.append_assoc] at done
    split at done
    · rename_i hkind
      rcases writeFile_blocked hall hc hnode hblocked hn e.content e.mode with
        ⟨err, herr⟩ | ⟨rfl, q, old, mode, hw, hfile, -⟩
      · exact done _ herr
      · refine absurd (.inr ⟨hkind, old, ?_, ?_⟩) (h q)
        · rw [hl.locate_below ha.isName (.inl rfl), hx.walk_append (.inl rfl), hw]
        · rintro rfl
          simp at hfile
    · obtain ⟨err, herr⟩ := makeLink_blocked hall hc hnode hblocked hn e.link
      exact done _ herr
    · obtain ⟨err, herr⟩ := Files.makeDirs_blocked hall hc hnode hblocked hn
      exact done _ herr

end Archive

end MetricHistory
