import MetricHistory.Proofs.Git.Export

/-!
# Full exports

The whole tree of a commit is written into an emptied directory, by way of an archive that lists each
directory before what it holds.

* `Archive.treeOf` is what the entries of an archive leave, and `Archive.Unpacked.shows` that there is
  exactly this tree once they are unpacked.
* `Mirror.isTree_archiveOf` : the archive of a regular tree is a tree.
* `Mirror.exportFull_run` : **a full export succeeds if there is such a commit, and leaves exactly the
  tree of its archive.**
-/

namespace MetricHistory

namespace Archive

open FileSystem (Shows)

variable {fs fs' : FileSystem} {dest dest' : Text} {spare mask : ℕ} {root : Place}
  {es : List ArchiveEntry}

instance (dest : Text) (e : ArchiveEntry) : Decidable (Kept dest e) :=
  inferInstanceAs (Decidable (e.kind = .symlink → Path.linkInside dest e.name e.link = true))

/-- What the entries leave below the destination when new files do not get the bits of a mask. -/
def treeOf (dest : Text) (es : List ArchiveEntry) (mask : ℕ) : Tree := fun names =>
  match es.find? fun e => Kept dest e ∧ parts e = names with
  | some e => some (node e { mask })
  | none => if ∃ e ∈ es, Kept dest e ∧ names <+: parts e then some .dir else none

theorem unstamped_node (e : ArchiveEntry) (fs : FileSystem) :
    (node e fs).unstamped = node e { mask := fs.mask } := by
  unfold node
  cases e.kind <;> rfl

/-- **Once the entries are unpacked, there is exactly the tree that they leave.** -/
theorem Unpacked.shows (h : Unpacked dest spare root es fs') (hplaced : Placed dest root es fs fs') :
    Shows root (treeOf dest es fs.mask) fs' := by
  refine ⟨h.leads.dir h.sound, fun names hne => ?_⟩
  unfold treeOf
  split
  · rename_i e hfind
    obtain ⟨hkept, rfl⟩ : Kept dest e ∧ parts e = names := by simpa using List.find?_some hfind
    rw [hplaced.entries e (List.mem_of_find?_eq_some hfind) hkept, Option.map_some, unstamped_node]
  · rename_i hfind
    have hend : ∀ e ∈ es, Kept dest e → parts e ≠ names := by simpa using hfind
    split
    · rename_i hbelow
      obtain ⟨e, he, hkept, ws, hws⟩ := hbelow
      have hthere := hplaced.entries e he hkept
      rw [← hws, ← List.append_assoc] at hthere
      rw [h.sound.dir_of_below hthere fun hnil => hend e he hkept (by simpa [hnil] using hws.symm)]
      rfl
    · rename_i hno
      rcases hn : fs'.node? (root ++ names) with _ | n
      · rfl
      · obtain ⟨e, he, ha, hpre, -⟩ := h.nodes names n hne hn
        exact absurd ⟨e, he, ha.inside, hpre⟩ hno

theorem treeOf_congr (h : ∀ e ∈ es, e.kind ≠ .symlink) (dest dest' : Text) (mask : ℕ) :
    treeOf dest es mask = treeOf dest' es mask := by
  have hkept : ∀ dest, ∀ e ∈ es, Kept dest e := fun dest e he hk => absurd hk (h e he)
  funext names
  unfold treeOf
  have hfind : (es.find? fun e => Kept dest e ∧ parts e = names) =
      es.find? fun e => Kept dest' e ∧ parts e = names :=
    List.find?_congr fun e he => by simp [hkept _ e he]
  have hbelow : (∃ e ∈ es, Kept dest e ∧ names <+: parts e) ↔
      ∃ e ∈ es, Kept dest' e ∧ names <+: parts e :=
    exists_congr fun e => and_congr_right fun he => by simp [hkept _ e he]
  rw [hfind]
  simp only [hbelow]

end Archive

namespace Mirror

open Archive (IsTree parts)
open FileSystem (Confined Scratch Shows)

/-! ### The archive of a tree -/

variable {tree seen rest : Git.Tree} {x y : Text × Git.Blob} {path d : Text} {names : List Text}
  {done : List ArchiveEntry × List Text} {e : ArchiveEntry}

/-- The archive entry of a directory. -/
def dirEntry (d : Text) : ArchiveEntry := { kind := .directory, name := d ++ "/", mode := 0o775 }

/-- One more file: the directories that it lies in, as far as they are not listed, and the file. -/
def addFile (done : List ArchiveEntry × List Text) (x : Text × Git.Blob) :
    List ArchiveEntry × List Text :=
  let new := (directoriesOf x.1).filter fun d => !done.2.contains d
  (done.1 ++ new.map dirEntry ++ [fileEntry x.1 x.2], done.2 ++ new)

theorem archiveOf_eq (tree : Git.Tree) : archiveOf tree = (tree.foldl addFile ([], [])).1 := rfl

theorem parts_fileEntry (x : Text × Git.Blob) :
    parts (fileEntry x.1 x.2) = Path.components x.1 := by
  unfold fileEntry
  split <;> rfl

theorem parts_dirEntry (h : ∀ c ∈ names, Path.IsName c) :
    parts (dirEntry (Text.join [Path.slash] names)) = names := by
  have hproper : Path.Normal.Proper ⟨true, names⟩ := (Path.Normal.proper_nil true).append_names h
  have hname : (dirEntry (Text.join [Path.slash] names)).name =
      Text.join [Path.slash] names ++ Path.slash :: [] := rfl
  rw [parts, hname, Path.components_append_slash, hproper.components_join, Path.components_nil,
    List.append_nil]

theorem directoriesOf_eq (h : Path.IsRelative path) :
    directoriesOf path = (List.range ((Path.components path).length - 1)).map fun n =>
      Text.join [Path.slash] ((Path.components path).take (n + 1)) := by
  rw [directoriesOf, ← h.components_eq, List.length_dropLast]
  refine List.map_congr_left fun n hn => ?_
  rw [List.mem_range] at hn
  rw [List.dropLast_eq_take, List.take_take, Nat.min_eq_left (by omega)]

theorem exists_of_mem_directoriesOf (h : Path.IsRelative path) (hd : d ∈ directoriesOf path) :
    d = Text.join [Path.slash] (parts (dirEntry d)) ∧ parts (dirEntry d) ≠ [] ∧
      ∃ more, more ≠ [] ∧ Path.components path = parts (dirEntry d) ++ more := by
  rw [directoriesOf_eq h, List.mem_map] at hd
  obtain ⟨n, hn, rfl⟩ := hd
  rw [List.mem_range] at hn
  rw [parts_dirEntry fun c hc => h.isName c (List.mem_of_mem_take hc)]
  refine ⟨rfl, by simpa using h.components_ne_nil, (Path.components path).drop (n + 1), ?_,
    (List.take_append_drop _ _).symm⟩
  rw [ne_eq, List.drop_eq_nil_iff]
  omega

theorem nodup_directoriesOf (h : Path.IsRelative path) :
    ((directoriesOf path).map fun d => parts (dirEntry d)).Nodup := by
  have hparts : (directoriesOf path).map (fun d => parts (dirEntry d)) =
      (List.range ((Path.components path).length - 1)).map fun n =>
        (Path.components path).take (n + 1) := by
    rw [directoriesOf_eq h, List.map_map]
    refine List.map_congr_left fun n _ => ?_
    exact parts_dirEntry fun c hc => h.isName c (List.mem_of_mem_take hc)
  rw [hparts]
  refine List.nodup_range.map_on fun n hn k hk heq => ?_
  have hlength := congrArg List.length heq
  rw [List.mem_range] at hn hk
  simp only [List.length_take] at hlength
  omega

/-- No file of a tree is at the place of a directory of another one, or above it. -/
theorem not_prefix_directory (h : tree.Regular) (hx : x ∈ tree) (hy : y ∈ tree)
    (hd : d ∈ directoriesOf x.1) : ¬ Path.components y.1 <+: parts (dirEntry d) := by
  intro hpre
  obtain ⟨-, -, more, hmore, hcomponents⟩ := exists_of_mem_directoriesOf (h.relative x hx) hd
  have hsame : y.1 = x.1 :=
    h.apart y hy x hx (hpre.trans (hcomponents ▸ List.prefix_append _ _))
  have hlength := hpre.length_le
  rw [hsame, hcomponents, List.length_append] at hlength
  have := List.length_pos_iff.2 hmore
  omega

/-- The archive lists the files of a part of the tree and directories of their paths, each once. -/
structure Archived (seen : Git.Tree) (done : List ArchiveEntry × List Text) : Prop where
  entries : ∀ e ∈ done.1, (∃ d ∈ done.2, e = dirEntry d) ∨ ∃ x ∈ seen, e = fileEntry x.1 x.2
  directories : ∀ d ∈ done.2, ∃ x ∈ seen, d ∈ directoriesOf x.1
  apart : (done.1.map parts).Nodup

section Add

variable (h : Archived seen done) (ht : Git.Tree.Regular (seen ++ x :: rest))
include h ht

theorem Archived.directory_notMem (hd : d ∈ directoriesOf x.1) (hnew : d ∉ done.2) :
    parts (dirEntry d) ∉ done.1.map parts := by
  intro hin
  obtain ⟨e, he, heq⟩ := List.mem_map.1 hin
  rcases h.entries e he with ⟨d', hd', rfl⟩ | ⟨y, hy, rfl⟩
  · obtain ⟨y, hy, hdir⟩ := h.directories d' hd'
    have hd'_eq := (exists_of_mem_directoriesOf (ht.relative y (by simp [hy])) hdir).1
    rw [heq, ← (exists_of_mem_directoriesOf (ht.relative x (by simp)) hd).1] at hd'_eq
    exact hnew (hd'_eq ▸ hd')
  · rw [parts_fileEntry] at heq
    have hx : x ∈ seen ++ x :: rest := by simp
    have hy' : y ∈ seen ++ x :: rest := by simp [hy]
    exact not_prefix_directory ht hx hy' hd (heq ▸ List.prefix_rfl)

/-- The next file is at a place of its own. -/
theorem Archived.file_notMem : Path.components x.1 ∉ done.1.map parts := by
  intro hin
  obtain ⟨e, he, heq⟩ := List.mem_map.1 hin
  rcases h.entries e he with ⟨d, hd, rfl⟩ | ⟨y, hy, rfl⟩
  · obtain ⟨y, hy, hdir⟩ := h.directories d hd
    have hx : x ∈ seen ++ x :: rest := by simp
    have hy' : y ∈ seen ++ x :: rest := by simp [hy]
    exact not_prefix_directory ht hy' hx hdir (heq ▸ List.prefix_rfl)
  · rw [parts_fileEntry] at heq
    have hsame := ht.apart y (by simp [hy]) x (by simp) (heq ▸ List.prefix_rfl)
    have hnodup := ht.nodup
    rw [List.map_append, List.map_cons, List.nodup_append] at hnodup
    exact hnodup.2.2 _ (List.mem_map_of_mem hy) _ (by simp) hsame

theorem Archived.add : Archived (seen ++ [x]) (addFile done x) := by
  set new := (directoriesOf x.1).filter fun d => !done.2.contains d with hnew
  have hmem : ∀ {d}, d ∈ new ↔ d ∈ directoriesOf x.1 ∧ d ∉ done.2 := by simp [hnew]
  have hdone : addFile done x = (done.1 ++ new.map dirEntry ++ [fileEntry x.1 x.2], done.2 ++ new) :=
    rfl
  rw [hdone]
  refine ⟨fun e he => ?entries, fun d hd => ?directories, ?apart⟩
  case entries =>
    simp only [List.mem_append, List.mem_map, List.mem_singleton] at he
    rcases he with (he | ⟨d, hd, rfl⟩) | rfl
    · rcases h.entries e he with ⟨d, hd, rfl⟩ | ⟨y, hy, rfl⟩
      · exact .inl ⟨d, by simp [hd], rfl⟩
      · exact .inr ⟨y, by simp [hy], rfl⟩
    · exact .inl ⟨d, by simp [hd], rfl⟩
    · exact .inr ⟨x, by simp, rfl⟩
  case directories =>
    rcases List.mem_append.1 hd with hd | hd
    · obtain ⟨y, hy, hdir⟩ := h.directories d hd
      exact ⟨y, by simp [hy], hdir⟩
    · exact ⟨x, by simp, (hmem.1 hd).1⟩
  case apart =>
    have hdirs : (new.map fun d => parts (dirEntry d)).Nodup :=
      (nodup_directoriesOf (ht.relative x (by simp))).sublist (List.filter_sublist.map _)
    have hx : x ∈ seen ++ x :: rest := by simp
    -- no directory of a file is the file itself
    have hfile : ∀ d ∈ new, parts (dirEntry d) ≠ Path.components x.1 := fun d hd heq =>
      not_prefix_directory ht hx hx (hmem.1 hd).1 (heq ▸ List.prefix_rfl)
    simp only [List.map_append, List.map_map, List.map_cons, List.map_nil, parts_fileEntry,
      List.nodup_append, List.mem_append, List.mem_singleton, List.mem_map]
    refine ⟨⟨h.apart, hdirs, ?_⟩, List.nodup_singleton _, ?_⟩
    · rintro _ hin _ ⟨d, hd, rfl⟩ rfl
      exact h.directory_notMem ht (hmem.1 hd).1 (hmem.1 hd).2 (List.mem_map.2 hin)
    · rintro _ (hin | ⟨d, hd, rfl⟩) _ rfl
      · rintro rfl
        exact h.file_notMem ht (List.mem_map.2 hin)
      · exact hfile d hd

end Add

/-- The archive lists the whole tree.  The induction is on the files that are left. -/
theorem archived_foldl (h : Archived seen done) (ht : Git.Tree.Regular (seen ++ rest)) :
    Archived (seen ++ rest) (rest.foldl addFile done) := by
  induction rest generalizing seen done with
  | nil => rwa [List.append_nil]
  | cons x rest ih =>
    have := ih (h.add ht) (by simpa using ht)
    rwa [List.append_assoc] at this

/-- **The archive of a regular tree is a tree.** -/
theorem isTree_archiveOf (ht : tree.Regular) : IsTree (archiveOf tree) := by
  have hnone : Archived [] ([], []) := ⟨by simp, by simp, by simp⟩
  have h : Archived tree (tree.foldl addFile ([], [])) := archived_foldl hnone ht
  rw [archiveOf_eq]
  generalize tree.foldl addFile ([], []) = done at h ⊢
  -- an entry is that of a directory or of a file
  have hentry : ∀ e ∈ done.1, (∃ x ∈ tree, ∃ d ∈ directoriesOf x.1, e = dirEntry d) ∨
      ∃ x ∈ tree, e = fileEntry x.1 x.2 := by
    intro e he
    rcases h.entries e he with ⟨d, hd, rfl⟩ | hfile
    · obtain ⟨x, hx, hdir⟩ := h.directories d hd
      exact .inl ⟨x, hx, d, hdir, rfl⟩
    · exact .inr hfile
  refine ⟨fun e he => ?kind, fun e he => ?named, fun e he c hc => ?isName,
    List.pairwise_map.1 h.apart, fun e he e' he' hk hpre => ?leaf⟩
  case kind =>
    rcases hentry e he with ⟨x, -, d, -, rfl⟩ | ⟨x, -, rfl⟩
    · simp [dirEntry]
    · unfold fileEntry
      split <;> simp
  case named =>
    rcases hentry e he with ⟨x, hx, d, hd, rfl⟩ | ⟨x, hx, rfl⟩
    · exact (exists_of_mem_directoriesOf (ht.relative x hx) hd).2.1
    · rw [parts_fileEntry]
      exact (ht.relative x hx).components_ne_nil
  case isName =>
    rcases hentry e he with ⟨x, hx, d, hd, rfl⟩ | ⟨x, hx, rfl⟩
    · obtain ⟨-, -, more, -, hcomponents⟩ := exists_of_mem_directoriesOf (ht.relative x hx) hd
      exact (ht.relative x hx).isName c (hcomponents ▸ List.mem_append_left _ hc)
    · rw [parts_fileEntry] at hc
      exact (ht.relative x hx).isName c hc
  case leaf =>
    rcases hentry e he with ⟨x, -, d, -, rfl⟩ | ⟨x, hx, rfl⟩
    · exact absurd rfl hk
    rw [parts_fileEntry] at hpre ⊢
    rcases hentry e' he' with ⟨y, hy, d, hd, rfl⟩ | ⟨y, hy, rfl⟩
    · exact absurd hpre (not_prefix_directory ht hy hx hd)
    · rw [parts_fileEntry] at hpre ⊢
      rw [ht.apart x hx y hy hpre]

/-! ### Exports -/

variable {m : Mirror} {s : Place} {store : Git.Store} {w w' : World Machine} {dest : Text}
  {mask : ℕ}

/-- The mirror can be read, and new files do not get the bits of a mask. -/
structure Readable (m : Mirror) (s : Place) (store : Git.Store) (mask : ℕ) (w : World Machine) :
    Prop where
  reads : m.Reads s store w
  mask : w.files.mask = mask

/-- The mirror can be read, and its program is found by its name. -/
structure Runnable (m : Mirror) (s : Place) (store : Git.Store) (mask : ℕ) (w : World Machine) :
    Prop extends Readable m s store mask w where
  byName : Programs.isPath m.program = false
  program : m.program ∈ w.outside.programs.named

theorem Readable.confined (h : m.Readable s store mask w) (hc : Confined s w.files w'.files)
    (hm : w'.files.mask = w.files.mask) (ho : w'.outside = w.outside) :
    m.Readable s store mask w' :=
  ⟨h.reads.confined hc ho, hm.trans h.mask⟩

theorem Runnable.confined (h : m.Runnable s store mask w) (hc : Confined s w.files w'.files)
    (hm : w'.files.mask = w.files.mask) (ho : w'.outside = w.outside) :
    m.Runnable s store mask w' :=
  ⟨h.toReadable.confined hc hm ho, h.byName, ho ▸ h.program⟩

theorem Readable.log (h : m.Readable s store mask w) (log : List LogEntry) :
    m.Readable s store mask { w with log } :=
  ⟨⟨h.reads.named, h.reads.found⟩, h.mask⟩

theorem Runnable.log (h : m.Runnable s store mask w) (log : List LogEntry) :
    m.Runnable s store mask { w with log } :=
  ⟨h.toReadable.log log, h.byName, h.program⟩

theorem Runnable.obstacle?_eq (h : m.Runnable s store mask w) : m.obstacle? w m.path = none := by
  obtain ⟨d, hfind, -⟩ := h.reads.find_eq
  have hnamed : m.path.isEmpty = false := by simpa using h.reads.named
  simp [obstacle?, Programs.obstacle?, h.byName, h.program, dirObstacle?, hnamed, hfind]

theorem mem_of_revision? {hash : Text} {r : Git.Revision} (h : store.revision? hash = some r) :
    r ∈ store.revisions :=
  List.mem_of_find?_eq_some h

theorem mem_of_named {name : Text} {r : Git.Revision} (h : named store name = some r) :
    r ∈ store.revisions := by
  rw [named] at h
  split at h
  · obtain ⟨_, -, hr⟩ := Option.bind_eq_some_iff.1 h
    exact mem_of_revision? hr
  · exact mem_of_revision? h

/-- **A full export succeeds if there is such a commit, and leaves exactly the tree of its archive.**
Nothing has changed elsewhere. -/
theorem exportFull_run (hgoing : w.canceled = false) (hdest : Scratch dest s w.files)
    (h : m.Runnable s store mask w) (ht : ∀ r ∈ store.revisions, r.tree.Regular) (hash : Text) :
    ∃ fs, ((m.exportFull hash dest).run w).2 = { w with files := fs } ∧ Confined s w.files fs ∧
      fs.mask = w.files.mask ∧
      ((m.exportFull hash dest).run w).1.toOption.isSome = (named store hash).isSome ∧
      ∀ r, named store hash = some r → Shows s (Archive.treeOf dest (archiveOf r.tree) mask) fs := by
  obtain ⟨files, canceled, log, display, outside⟩ := w
  obtain rfl : canceled = false := hgoing
  obtain ⟨fs₁, hreset, hconfined, hempty, -, hmask⟩ := hdest.resetDir_run
  have h₁ : m.Runnable s store mask ⟨fs₁, false, log, display, outside⟩ :=
    h.confined hconfined hmask rfl
  rw [exportFull, run_bind_ok (Attempt.onFiles_run_ok hreset), run_get_bind, h₁.obstacle?_eq]
  simp only [Bool.false_eq_true, if_false]
  rw [h₁.reads.storeAt_eq, Option.bind_some]
  cases hr : named store hash with
  | none => exact ⟨fs₁, rfl, hconfined, hmask, rfl, by simp⟩
  | some r =>
    obtain ⟨spare, hbare⟩ := exists_unpacked_nil (hdest.confined hconfined) hempty
    obtain ⟨fs₂, hextract, hunpacked, hplaced⟩ :=
      hbare.run_placed (isTree_archiveOf (ht r (mem_of_named hr)))
    dsimp only
    rw [Attempt.during_run_ok (Attempt.ofTask_run_ok hextract)]
    refine ⟨fs₂, rfl, hconfined.trans (confined_of_placed hplaced hunpacked.sound),
      hplaced.mask.trans hmask, rfl, ?_⟩
    rintro r ⟨⟩
    rw [← h₁.mask]
    exact hunpacked.shows hplaced

end Mirror

end MetricHistory
