import MetricHistory.Proofs.Cache.Directory
import MetricHistory.Proofs.FileSystem.Temporary

/-!
# The life of a temporary file

A temporary file is created under a name that is free in a directory (`FileSystem.Fresh`), filled,
and at last moved to another place or removed.

* `Files.createTemp_fresh` and `FileSystem.Fresh.createTemp_run` : it is created under such a name;
* `FileSystem.Fresh.write_run` : filling it changes nothing else;
* `FileSystem.Fresh.remove_run` : after it was removed everything is as it was before;
* `FileSystem.Fresh.rename_run` : **it takes the place that a path leads to, unless a directory is
  there or the path leads nowhere.**
-/

namespace MetricHistory

namespace FileSystem

open Cache (LeadsTo)

variable {dir name path : Text} {d q : Place} {fs fs' : FileSystem}

/-- The directory at a place has a free name. -/
structure Fresh (dir name : Text) (d : Place) (fs : FileSystem) : Prop where
  sound : fs.Sound
  isName : Path.IsName name
  leads : LeadsTo dir fs d
  free : fs.node? (d ++ [name]) = none

/-- The file system with a temporary file. -/
def withTemp (fs : FileSystem) (t : Place) (content : Text) : FileSystem :=
  fs.put t (.file (fs.granted 0o600) content fs.clock)

theorem node?_withTemp {t : Place} (ht : t ≠ []) (content : Text) (q : Place) :
    (fs.withTemp t content).node? q =
      if q = t then some (.file (fs.granted 0o600) content fs.clock) else fs.node? q :=
  node?_put ht _ q

theorem node?_temp (fs : FileSystem) (d : Place) (name content : Text) :
    (fs.withTemp (d ++ [name]) content).node? (d ++ [name]) =
      some (.file (fs.granted 0o600) content fs.clock) := by
  rw [node?_withTemp (by simp), if_pos rfl]

namespace Fresh

variable (h : Fresh dir name d fs) (content : Text)

include h

theorem dir_eq : fs.node? d = some .dir := h.leads.node?_eq h.sound

theorem sound_withTemp : (fs.withTemp (d ++ [name]) content).Sound :=
  h.sound.put h.dir_eq (by simp [h.free]) _

theorem keeps_withTemp {n : FileNode} (hn : fs.node? q = some n) :
    (fs.withTemp (d ++ [name]) content).node? q = some n := by
  rw [node?_withTemp (by simp), if_neg, hn]
  rintro rfl
  simp [h.free] at hn

theorem leads_withTemp : LeadsTo dir (fs.withTemp (d ++ [name]) content) d :=
  h.leads.mono (.of_node? fun _ _ => h.keeps_withTemp content) rfl

theorem find_eq (follow : Bool) :
    (fs.withTemp (d ++ [name]) content).find follow (Path.join [dir, name]) =
      .ok (d ++ [name], .file (fs.granted 0o600) content fs.clock) := by
  have hleads := h.leads_withTemp content
  have hnode := node?_temp fs d name content
  cases follow with
  | false => rw [find, hleads.locate h.isName, hnode]
  | true => rw [find, hleads.locate_true h.isName (by simp [hnode]), hnode]

/-- Filling a temporary file changes nothing else. -/
theorem write_run (content' : Text) :
    (Files.write (Path.join [dir, name]) content' 0o600).run (fs.withTemp (d ++ [name]) content) =
      (.ok (), fs.withTemp (d ++ [name]) content') := by
  have hnode := node?_temp fs d name content
  rw [Files.write_run, (h.leads_withTemp content).locate_true h.isName (by simp [hnode]), hnode]
  exact congrArg (Prod.mk _) (put_put _ _ _)

/-- **After a temporary file was removed everything is as it was before.** -/
theorem remove_run :
    (Files.remove (Path.join [dir, name])).run (fs.withTemp (d ++ [name]) content) =
      (.ok (), (fs.withTemp (d ++ [name]) content).erase (d ++ [name])) := by
  rw [Files.remove_run, h.find_eq content false]

theorem node?_erase (q : Place) :
    ((fs.withTemp (d ++ [name]) content).erase (d ++ [name])).node? q = fs.node? q := by
  rw [FileSystem.node?_erase (by simp), node?_withTemp (by simp)]
  split
  · rename_i hq
    rw [hq, h.free]
  · rfl

theorem rename_free {there : Option FileNode}
    (hlocate : (fs.withTemp (d ++ [name]) content).locate false path = .ok (q, there))
    (hdir : there ≠ some .dir) :
    (Files.rename (Path.join [dir, name]) path).run (fs.withTemp (d ++ [name]) content) =
      (.ok (), (fs.withTemp (d ++ [name]) content).moved (d ++ [name]) q) := by
  rw [Files.rename_run, h.find_eq content false, hlocate]
  rcases there with _ | _ | _ | _
  · rfl
  · exact absurd rfl hdir
  · rfl
  · rfl

/-- **A temporary file takes the place that a path leads to, unless a directory is there or the path
leads nowhere.** -/
theorem rename_run (path : Text) :
    (∃ e, (Files.rename (Path.join [dir, name]) path).run (fs.withTemp (d ++ [name]) content) =
      (.error e, fs.withTemp (d ++ [name]) content)) ∨
    ∃ q there, (fs.withTemp (d ++ [name]) content).locate false path = .ok (q, there) ∧
      there ≠ some .dir ∧
      (Files.rename (Path.join [dir, name]) path).run (fs.withTemp (d ++ [name]) content) =
        (.ok (), (fs.withTemp (d ++ [name]) content).moved (d ++ [name]) q) := by
  rcases hlocate : (fs.withTemp (d ++ [name]) content).locate false path with e | ⟨q, there⟩
  · rw [Files.rename_run, h.find_eq content false, hlocate]
    exact .inl ⟨_, rfl⟩
  by_cases hdir : there = some .dir
  · rw [Files.rename_run, h.find_eq content false, hlocate, hdir]
    exact .inl ⟨_, rfl⟩
  · exact .inr ⟨q, there, rfl, hdir, h.rename_free content hlocate hdir⟩

theorem node?_moved (hq : q ≠ []) (p : Place) :
    ((fs.withTemp (d ++ [name]) content).moved (d ++ [name]) q).node? p =
      if p = q then some (.file (fs.granted 0o600) content fs.clock) else fs.node? p := by
  rw [FileSystem.node?_moved (h.sound_withTemp content) (node?_temp fs d name content) hq, node?_withTemp (by simp)]
  split
  · rfl
  · split
    · rename_i hp
      rw [hp, h.free]
    · rfl

theorem sound_moved {there : Option FileNode}
    (hlocate : (fs.withTemp (d ++ [name]) content).locate false path = .ok (q, there))
    (hdir : there ≠ some .dir) :
    ((fs.withTemp (d ++ [name]) content).moved (d ++ [name]) q).Sound := by
  have hs := h.sound_withTemp content
  obtain ⟨hnode, d', c, rfl, hd⟩ := locate_end hs hlocate hdir
  exact hs.moved (node?_temp fs d name content) hd (hnode ▸ hdir)

end Fresh

end FileSystem

namespace Files

open FileSystem

variable {dir front temp : Text} {fs fs' : FileSystem}

/-- A temporary file is created under a name that is free. -/
theorem createTemp_fresh (hs : fs.Sound) (h : (createTemp dir front).run fs = (.ok temp, fs')) :
    ∃ i d, Fresh dir (front ++ Text.ofNat i) d fs ∧ temp = Path.join [dir, front ++ Text.ofNat i] ∧
      fs' = fs.withTemp (d ++ [front ++ Text.ofNat i]) [] := by
  rw [createTemp_run] at h
  split at h
  · cases h
  rename_i hslash
  obtain ⟨i, hi⟩ : ∃ i, freeName fs dir front = Path.join [dir, front ++ Text.ofNat i] := ⟨_, rfl⟩
  have hn := isName_numbered hslash i
  rw [hi] at h
  rcases hl : fs.locate false (Path.join [dir, front ++ Text.ofNat i]) with e | ⟨q, _ | n⟩
  · rw [hl] at h
    cases h
  · obtain ⟨d, hd⟩ := Cache.leadsTo_of_locate hn hl
    have hq := hl
    rw [hd.locate hn] at hq
    simp only [Except.ok.injEq, Prod.mk.injEq] at hq
    obtain ⟨rfl, hfree⟩ := hq
    rw [hl] at h
    cases h
    exact ⟨i, d, ⟨hs, hn, hd, hfree⟩, rfl, rfl⟩
  · rw [hl] at h
    cases h

/-- In a directory that is there one can be created. -/
theorem createTemp_leadsTo {d : Place} (hs : fs.Sound) (hd : Cache.LeadsTo dir fs d)
    (hslash : Path.slash ∉ front) :
    ∃ i, Fresh dir (front ++ Text.ofNat i) d fs ∧
      (createTemp dir front).run fs = (.ok (Path.join [dir, front ++ Text.ofNat i]),
        fs.withTemp (d ++ [front ++ Text.ofNat i]) []) := by
  have hname := isName_numbered hslash
  obtain ⟨i, hfree, hrun⟩ := createTemp_free (fun i => hd.locate (hname i)) hslash
  exact ⟨i, ⟨hs, hname i, hd, hfree⟩, hrun⟩

theorem createTemp_error {e : FileError} (h : (createTemp dir front).run fs = (.error e, fs')) :
    fs' = fs := by
  rw [createTemp_run] at h
  split at h
  · cases h
    rfl
  · split at h <;> cases h <;> rfl

end Files

end MetricHistory
