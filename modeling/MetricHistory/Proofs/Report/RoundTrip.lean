import MetricHistory.Proofs.Report.Codec
import MetricHistory.Proofs.Report.Replacement

/-!
# Reports are read back from their files

* `Report.write_scratch` : a report can be written to every scratch path at which no directory is;
* `Report.read_write` : what was written to a place of its own is found there;
* `Report.write_read` : **it is read back as it was**, but for the blank space in the findings, **and
  writing it again gives the same text.**
-/

namespace MetricHistory

namespace Report

open FileSystem

variable {r : Report} {path content : Text} {s : Place} {fs fs' : FileSystem}

theorem read_run (path : Text) (fs : FileSystem) :
    (read path).run fs =
      match (Files.read path).run fs with
      | (.error e, fs) => (.error (.file e), fs)
      | (.ok content, fs) =>
        match parse? content with
        | none => (.error (.other ("parse report " ++ path)), fs)
        | some r => (.ok r, fs) := by
  rw [read, run_bind, FileTask.ofFiles_run]
  rcases (Files.read path).run fs with ⟨e | content, fs'⟩
  · rfl
  · dsimp only
    rcases parse? content with _ | r <;> rfl

/-- A report that can be encoded can be written to a scratch path unless a directory is there, and
nothing else changes. -/
theorem write_scratch (h : Scratch path s fs) (hdir : fs.node? s ≠ some .dir)
    (hencode : r.encode? = some content) :
    ∃ fs', (write path r).run fs = (.ok (), fs') ∧ Confined s fs fs' ∧
      fs'.node? s = some (.file (fs.granted 0o600) content fs.clock) := by
  have hgrows := Files.makeDirs_grows h.sound (Path.dir path)
  obtain ⟨made, d, hmake, hconfined, hleads, hplace, hsame, hclock, hmask⟩ := h.makeDirs_dir
  rw [hmake] at hgrows
  obtain ⟨hbase, -⟩ := h.direct.base
  have hslash : Path.slash ∉ tempFront path := by
    have hdot : Path.slash ∉ Text.ofString "." := by decide
    simp only [tempFront, List.mem_append, not_or]
    exact ⟨⟨hdot, hbase.slash_not_mem⟩, hdot⟩
  obtain ⟨i, hfresh, hcreate⟩ := Files.createTemp_leadsTo hgrows.sound hleads hslash
  set name := tempFront path ++ Text.ofNat i
  have hnotTemp : s ≠ d ++ [name] := fun heq => not_isTemp ⟨d, hplace⟩ ⟨d, i, heq⟩
  -- with the temporary file beside it, the path still leads to its own place
  have hlocate : (made.withTemp (d ++ [name]) content).locate false path = .ok (s, fs.node? s) := by
    have hat := (hfresh.leads_withTemp content).locate hbase
    rwa [h.join_dir_base, ← hplace, node?_withTemp (by simp), if_neg hnotTemp, hsame] at hat
  have hrename : (Files.rename (Path.join [Path.dir path, name]) path).run
      (made.withTemp (d ++ [name]) content) =
        (.ok (), (made.withTemp (d ++ [name]) content).moved (d ++ [name]) s) :=
    hfresh.rename_free content hlocate hdir
  have hrun : (Files.write (Path.join [Path.dir path, name]) content 0o600 >>=
      fun _ => Files.rename (Path.join [Path.dir path, name]) path).run
        (made.withTemp (d ++ [name]) []) =
      (.ok (), (made.withTemp (d ++ [name]) content).moved (d ++ [name]) s) :=
    (run_bind_ok (hfresh.write_run [] content)).trans hrename
  have hnode := hfresh.node?_moved content h.ne_nil
  have hne : ∀ {q : Place}, ¬ s <+: q → q ≠ s := by
    rintro q hq rfl
    exact hq (List.prefix_refl q)
  refine ⟨(made.withTemp (d ++ [name]) content).moved (d ++ [name]) s, ?_,
    hconfined.trans ⟨fun hq hn => ?_, fun hq hn => .inl ?_, rfl,
      hfresh.sound_moved content hlocate hdir⟩, ?_⟩
  · rw [write_run, hmake]
    dsimp only
    rw [hcreate]
    dsimp only
    rw [tryCatch_run, fillAndMove, hencode]
    dsimp only
    rw [FileTask.during_run, FileTask.ofFiles_run, hrun]
  · rw [hnode, if_neg (hne hq), hn]
  · rwa [hnode, if_neg (hne hq)] at hn
  · rw [hnode, if_pos rfl, hclock, granted_congr hmask]

/-- A report that was written to a place of its own is found there. -/
theorem read_write (hs : fs.Sound) (hd : Direct path s fs) (hwrite : (write path r).run fs = (.ok (), fs'))
    (hencode : r.encode? = some content) :
    (Files.read path).run fs' = (.ok content, fs') ∧ fs'.Sound ∧ Direct path s fs' := by
  have hdone := (writeSteps_atomic hs [] path r).done
  rw [writeSteps_run hs, hwrite] at hdone
  obtain ⟨before, -, target, hprepared, hdelivered⟩ := hdone rfl
  obtain ⟨rfl, hd'⟩ := hdelivered.direct hprepared hd
  obtain ⟨content', modified, hencode', hnode⟩ := hdelivered.report
  obtain rfl : content' = content := Option.some.inj (hencode'.symm.trans hencode)
  refine ⟨?_, hdelivered.sound, hd'⟩
  rw [Cache.read_run, hd'.find_file hdelivered.sound hnode]

/-- **A report that can be written is read back as it was**, but for the blank space in its findings,
**and writing what is read gives the same text again.** -/
theorem write_read (hr : r.Writable) :
    ∃ content back, r.encode? = some content ∧ back.encode? = some content ∧ r.Respaced back ∧
      (∀ {path : Text} {s : Place} {fs fs₁ : FileSystem}, fs.Sound → Direct path s fs → (write path r).run fs = (.ok (), fs₁) →
        (Files.read path).run fs₁ = (.ok content, fs₁) ∧ (read path).run fs₁ = (.ok back, fs₁) ∧
          ∀ fs₂, (write path back).run fs₁ = (.ok (), fs₂) →
            (Files.read path).run fs₂ = (.ok content, fs₂)) ∧
      ∀ {path : Text} {s : Place} {fs : FileSystem}, Scratch path s fs → fs.node? s ≠ some .dir →
        ∃ fs₁ fs₂, (write path r).run fs = (.ok (), fs₁) ∧
          (write path back).run fs₁ = (.ok (), fs₂) := by
  have hback := hr.encode?_reread.trans hr.encode?_eq
  refine ⟨_, r.reread, hr.encode?_eq, hback, hr.respaced, fun hs hd hwrite => ?_,
    fun hscratch hdir => ?_⟩
  · obtain ⟨hread, hs₁, hd₁⟩ := read_write hs hd hwrite hr.encode?_eq
    refine ⟨hread, ?_, fun fs₂ hagain => (read_write hs₁ hd₁ hagain hback).1⟩
    rw [read_run, hread]
    dsimp only
    rw [hr.parse?_encode]
  · obtain ⟨fs₁, hwrite, hconfined, hnode⟩ := write_scratch hscratch hdir hr.encode?_eq
    obtain ⟨fs₂, hagain, -⟩ :=
      write_scratch (hscratch.confined hconfined) (by simp [hnode]) hback
    exact ⟨fs₁, fs₂, hwrite, hagain⟩

/-- The report of a snapshot is written to a file in the root and read back. -/
theorem write_read_snapshot :
    let r : Report :=
      { framework := "a"
        generated := { seconds := 1704067200, offset := 3600 }
        commitsMonthly := [{ date := "2024-01", total := 1, features := 1 }]
        snapshots := [{ date := "2024-01", commit := "abcdef12", production := "[1, 2]",
                        surfaceArea := "null", surfaceAreaLists := "null", antipatterns := "null",
                        hotspots := "null" }] }
    r.Writable ∧ ∃ back fs₁, r.Respaced back ∧ (write "/r.json" r).run {} = (.ok (), fs₁) ∧
      (read "/r.json").run fs₁ = (.ok back, fs₁) := by
  intro r
  have hnull : IsFinding "null" := ⟨.null, by cbv, by decide⟩
  have hlist : IsFinding "[1, 2]" :=
    ⟨.array [] (.cons [] (.number "1") [] (.cons " " (.number "2") [] .nil)), by cbv, by decide⟩
  have hr : r.Writable := by
    refine ⟨by decide +kernel, ⟨by decide, by decide +kernel, by decide, by decide⟩, ?_, ?_, by simp [r],
      by simp [r]⟩
    · intro m hm
      obtain rfl := List.mem_singleton.1 hm
      refine ⟨by decide +kernel, ?_, ?_, ?_, ?_, ?_⟩ <;> exact ⟨by decide, by decide⟩
    · intro s hs
      obtain rfl := List.mem_singleton.1 hs
      exact ⟨by decide +kernel, by decide +kernel, Binary64.finite_zero, hlist, hnull, hnull, hnull, hnull⟩
  have hname : Path.IsName "r.json" := ⟨by decide, by decide, by decide, by decide⟩
  have hscratch : Scratch "/r.json" ["r.json"] {} := sound_empty.scratch_root hname (by decide)
  obtain ⟨content, back, -, -, hrespaced, hread, hwrite⟩ := write_read hr
  obtain ⟨fs₁, -, hok, -⟩ := hwrite hscratch (by decide)
  exact ⟨hr, back, fs₁, hrespaced, hok, (hread sound_empty hscratch.direct hok).2.1⟩

/-- With an offset of a whole day a report is not written. -/
theorem day_ahead_not_written :
    let r : Report := { framework := "x", generated := { seconds := 1704067200, offset := 86400 } }
    Utf8.valid r.framework = true ∧ r.generated.date.year = 2024 ∧ r.generated.offset % 60 = 0 ∧
      ((write "/r.json" r).run {}).1 = .error (.other "encode report") := by
  intro r
  refine ⟨by decide +kernel, by decide +kernel, by decide, ?_⟩
  simp only [r]
  cbv

end Report

end MetricHistory
