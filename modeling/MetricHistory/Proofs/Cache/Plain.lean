import MetricHistory.Proofs.Cache.Files

/-!
# A cache directory with files only

A cache directory is made when the cache is opened, and from then on only files are put into it and
taken away (`Cache.Plain`).  What a lookup finds there is decided by the file of its key, and the
removal of an entry concerns that file only.

* `Cache.Plain.get`, `Cache.Plain.set`, `Cache.Plain.invalidate` : the operations leave such a
  directory behind, and everything else alone;
* `Cache.Plain.get_free` : nothing is found where there is no file;
* `Cache.Plain.get_congr` : **what is found depends on the file of the key and on the time only.**
-/

namespace MetricHistory

namespace Cache

open FileSystem

variable {dir name key fingerprint : Text} {d : Place} {fs fs' : FileSystem} {n : FileNode}
  {c : Cache} {mode : Nat} {content : Text} {modified : Time} {o : Option FileNode}

/-- The cache directory is there, under its path as it is spelled and without its detours, and holds
files only. -/
structure Plain (dir : Text) (d : Place) (fs : FileSystem) : Prop where
  sound : fs.Sound
  there : fs.isDir dir = true
  leads : LeadsTo dir fs d
  files : ∀ name n, Path.IsName name → shown? dir fs name = some n →
    ∃ mode content modified, n = .file mode content modified

/-- The cache directory is still plain, and nothing has changed but what is directly in it. -/
structure Tended (dir : Text) (d : Place) (fs fs' : FileSystem) : Prop where
  plain : Plain dir d fs'
  elsewhere : ∀ q, (∀ x, q ≠ d ++ [x]) → fs'.node? q = fs.node? q

/-- Of the cache directory only what is under one name has changed. -/
structure Altered (dir : Text) (d : Place) (name : Text) (o : Option FileNode)
    (fs fs' : FileSystem) : Prop extends Tended dir d fs fs' where
  shown : ∀ x, Path.IsName x → shown? dir fs' x = if x = name then o else shown? dir fs x
  clock : fs'.clock = fs.clock

theorem Plain.tended_refl (h : Plain dir d fs) : Tended dir d fs fs := ⟨h, fun _ _ => rfl⟩

theorem Plain.stands (h : Plain dir d fs) : Stands dir fs :=
  ⟨h.sound, .inr (isDir_clean_iff.2 ⟨d, h.leads⟩)⟩

theorem Plain.noLinks (h : Plain dir d fs) : NoLinks dir fs := by
  intro name t hn ht
  obtain ⟨_, _, _, hfile⟩ := h.files name _ hn ht
  cases hfile

theorem Plain.ne_dir (h : Plain dir d fs) (hn : Path.IsName name) :
    fs.node? (d ++ [name]) ≠ some .dir := by
  intro hdir
  obtain ⟨_, _, _, hfile⟩ := h.files name .dir hn ((h.leads.shown? hn).trans hdir)
  cases hfile

theorem Plain.ne_link (h : Plain dir d fs) (hn : Path.IsName name) (t : Text) :
    fs.node? (d ++ [name]) ≠ some (.link t) :=
  fun hlink => h.noLinks name t hn ((h.leads.shown? hn).trans hlink)

theorem shown?_atTime (h : LeadsTo dir fs d) (t : Time) (hn : Path.IsName name) :
    shown? dir { fs with clock := t } name = shown? dir fs name := by
  have hkeeps : fs.Keeps { fs with clock := t } := ⟨id, id⟩
  rw [(h.mono hkeeps rfl).shown? hn, h.shown? hn]
  rfl

theorem Plain.atTime (h : Plain dir d fs) (t : Time) : Plain dir d { fs with clock := t } := by
  have hkeeps : fs.Keeps { fs with clock := t } := ⟨id, id⟩
  refine ⟨⟨h.sound.parent, h.sound.current⟩, hkeeps.isDir rfl h.there, h.leads.mono hkeeps rfl,
    fun name n hn hshown => h.files name n hn ?_⟩
  rwa [shown?_atTime h.leads t hn] at hshown

/-- The directory goes on to be plain when only files are put there or taken away. -/
theorem Plain.altered (h : Plain dir d fs) (hn : Path.IsName name) (hsound : fs'.Sound)
    (hcurrent : fs'.current = fs.current) (hclock : fs'.clock = fs.clock)
    (ho : ∀ m, o = some m → ∃ mode content modified, m = .file mode content modified)
    (hnode : ∀ q, fs'.node? q = if q = d ++ [name] then o else fs.node? q) :
    Altered dir d name o fs fs' := by
  have hkeeps : fs.Keeps fs' := by
    refine ⟨fun {p} hp => ?_, fun {p t} hp => ?_⟩
    · rw [hnode, if_neg (by rintro rfl; exact h.ne_dir hn hp), hp]
    · rw [hnode, if_neg (by rintro rfl; exact h.ne_link hn t hp), hp]
  have hleads : LeadsTo dir fs' d := h.leads.mono hkeeps hcurrent
  have hshown : ∀ x, Path.IsName x →
      shown? dir fs' x = if x = name then o else shown? dir fs x := by
    intro x hx
    rw [hleads.shown? hx, h.leads.shown? hx, hnode]
    simp only [List.append_cancel_left_eq, List.cons.injEq, and_true]
  have hfiles : ∀ x m, Path.IsName x → shown? dir fs' x = some m →
      ∃ mode content modified, m = .file mode content modified := by
    intro x m hx hm
    rw [hshown x hx] at hm
    split at hm
    · exact ho m hm
    · exact h.files x m hx hm
  have helsewhere : ∀ q, (∀ x, q ≠ d ++ [x]) → fs'.node? q = fs.node? q := fun q hq => by
    rw [hnode, if_neg (hq name)]
  exact ⟨⟨⟨hsound, hkeeps.isDir hcurrent h.there, hleads, hfiles⟩, helsewhere⟩, hshown, hclock⟩

/-! ### The files of a plain directory -/

theorem Plain.read_file (h : Plain dir d fs) (hn : Path.IsName name)
    (hshown : shown? dir fs name = some (.file mode content modified)) :
    (Files.read (Path.join [dir, name])).run fs = (.ok content, fs) := by
  rw [h.leads.shown? hn] at hshown
  rw [read_run, FileSystem.find, h.leads.locate_true hn (h.ne_link hn), hshown]

theorem Plain.read_free (h : Plain dir d fs) (hn : Path.IsName name)
    (hshown : shown? dir fs name = none) :
    ∃ e, (Files.read (Path.join [dir, name])).run fs = (.error e, fs) := by
  rw [h.leads.shown? hn] at hshown
  exact ⟨_, by rw [read_run, FileSystem.find, h.leads.locate_true hn (h.ne_link hn), hshown]⟩

theorem Plain.remove_file (h : Plain dir d fs) (hn : Path.IsName name)
    (hshown : shown? dir fs name = some n) :
    (Files.remove (Path.join [dir, name])).run fs = (.ok (), fs.erase (d ++ [name])) ∧
      Altered dir d name none fs (fs.erase (d ++ [name])) := by
  obtain ⟨mode, content, modified, rfl⟩ := h.files name n hn hshown
  rw [h.leads.shown? hn] at hshown
  refine ⟨?_, h.altered hn (h.sound.erase (by simp) (by simp [hshown])) rfl rfl (by simp)
    (node?_erase (by simp))⟩
  rw [Files.remove_run, FileSystem.find, h.leads.locate hn, hshown]

theorem Plain.remove_free (h : Plain dir d fs) (hn : Path.IsName name)
    (hshown : shown? dir fs name = none) :
    (Files.remove (Path.join [dir, name])).run fs =
      (.error ⟨"remove", [Path.join [dir, name]], .noEntry⟩, fs) := by
  rw [h.leads.shown? hn] at hshown
  rw [Files.remove_run, FileSystem.find, h.leads.locate hn, hshown]

/-! ### Looking up -/

theorem entryPath_eq (c : Cache) (key : Text) :
    c.entryPath key = Path.join [c.dir, entryName key] := rfl

/-- Nothing is found where there is no file. -/
theorem Plain.get_free (h : Plain c.dir d fs) (hfree : shown? c.dir fs (entryName key) = none) :
    (c.get key fingerprint).run fs = (none, fs) := by
  obtain ⟨e, he⟩ := h.read_free (isName_entryName key) hfree
  rw [get_run, entryPath_eq, he]
  split <;> rfl

/-- **What is found depends on the file of the key and on the time only.** -/
theorem Plain.get_congr {d' : Place} (h : Plain c.dir d fs) (h' : Plain c.dir d' fs')
    (hclock : fs'.clock = fs.clock)
    (hshown : shown? c.dir fs' (entryName key) = shown? c.dir fs (entryName key)) :
    ((c.get key fingerprint).run fs').1 = ((c.get key fingerprint).run fs).1 := by
  have hn := isName_entryName key
  cases hfile : shown? c.dir fs (entryName key) with
  | none => rw [h.get_free hfile, h'.get_free (hshown.trans hfile)]
  | some n =>
    obtain ⟨mode, content, modified, rfl⟩ := h.files _ n hn hfile
    rw [get_run, get_run, entryPath_eq, h.read_file hn hfile, h'.read_file hn (hshown.trans hfile)]
    simp only [hclock]
    split
    · rfl
    cases CacheEntry.parse? content with
    | none => rfl
    | some e =>
      dsimp only
      split
      · rfl
      · split <;> rfl

/-- A lookup takes away the file of the key at most. -/
theorem Plain.get (h : Plain c.dir d fs) (key fingerprint : Text) :
    Tended c.dir d fs ((c.get key fingerprint).run fs).2 := by
  have hn := isName_entryName key
  cases hfile : shown? c.dir fs (entryName key) with
  | none =>
    rw [h.get_free hfile]
    exact h.tended_refl
  | some n =>
    obtain ⟨hremove, hgone⟩ := h.remove_file hn hfile
    obtain ⟨mode, content, modified, rfl⟩ := h.files _ n hn hfile
    rw [get_run, entryPath_eq, h.read_file hn hfile]
    simp only [hremove]
    split
    · exact h.tended_refl
    cases CacheEntry.parse? content with
    | none => exact hgone.toTended
    | some e =>
      dsimp only
      split
      · exact h.tended_refl
      · split
        · exact hgone.toTended
        · exact h.tended_refl

/-! ### Storing and removing -/

/-- Storing puts the file of the key at most. -/
theorem Plain.set (h : Plain c.dir d fs) (key fingerprint data : Text) :
    Tended c.dir d fs ((c.set key fingerprint data).run fs).2 := by
  rw [set_state]
  split
  · exact h.tended_refl
  cases CacheEntry.encode? { key, fingerprint, stored := fs.clock, data } with
  | none => exact h.tended_refl
  | some raw =>
    have hn := isName_entryName key
    obtain ⟨fs', hfill, hsound, hcurrent, hclock, -, hnode⟩ :=
      fill_run h.sound h.leads (h.ne_dir hn) raw
    have hreplace : (replace c key raw).run fs = (.ok (), fs') := by
      rw [replace, run_bind_ok (Files.makeDirs_of_isDir h.there)]
      exact hfill
    simp only [hreplace]
    exact (h.altered hn hsound hcurrent hclock (by simp) hnode).toTended

/-- **Removing an entry takes away the file of its key, and nothing else.** -/
theorem Plain.invalidate (henabled : c.enabled = true) (h : Plain c.dir d fs) (key : Text) :
    ∃ fs', (c.invalidate key).run fs = (.ok (), fs') ∧
      Altered c.dir d (entryName key) none fs fs' := by
  have hn := isName_entryName key
  have hrun : (c.invalidate key).run fs =
      (tryCatch (Files.remove (c.entryPath key)) fun e =>
        if e.errno == .noEntry then pure () else throw e : Files Unit).run fs := by
    rw [Cache.invalidate, henabled]
    rfl
  rw [hrun, tryCatch_run, entryPath_eq]
  cases hfile : shown? c.dir fs (entryName key) with
  | none =>
    rw [h.remove_free hn hfile]
    refine ⟨fs, rfl, h.tended_refl, fun x hx => ?_, rfl⟩
    split
    · rename_i hname
      rw [hname, hfile]
    · rfl
  | some n =>
    obtain ⟨hremove, hgone⟩ := h.remove_file hn hfile
    rw [hremove]
    exact ⟨_, rfl, hgone⟩

end Cache

end MetricHistory
