import MetricHistory.Proofs.FileSystem.Direct
import MetricHistory.Proofs.FileSystem.Fresh
import MetricHistory.Proofs.FileSystem.Program
import MetricHistory.Report.File

/-!
# Replacing a report

A report is written to a temporary file, piece by piece, and that file is moved to its place when it
is complete (`Report.writeSteps`).  So whoever looks at the files while a report is written finds
them in one of two states:

* `Report.Preparing` : nothing but directories and temporary files is new;
* `Report.Delivered` : the complete report is at the place that its path led to, and nothing else but
  directories is new.

`Report.write_atomic` says so for every report, path and file system, and for every way to cut the
report into pieces, and what is left in the end: **an error leaves every file as it was, and no
temporary file**.  When the path leads to a place of its own (`FileSystem.Direct`), it leads to what
was there before or to the complete report at any time.
-/

namespace MetricHistory

namespace FileSystem

variable {fs fs₁ fs₂ : FileSystem}

theorem Grows.congr (h : fs.Grows fs₁) (hnode : ∀ q, fs₂.node? q = fs₁.node? q)
    (hcurrent : fs₂.current = fs₁.current) (hclock : fs₂.clock = fs₁.clock)
    (hmask : fs₂.mask = fs₁.mask) : fs.Grows fs₂ where
  keep hq := (hnode _).trans (h.keep hq)
  new hq hn := h.new ((hnode _).symm.trans hq) hn
  current := hcurrent.trans h.current
  clock := hclock.trans h.clock
  mask := hmask.trans h.mask
  sound := h.sound.congr hnode hcurrent

end FileSystem

namespace Report

open FileSystem

/-! ### Step by step -/

/-- Removes a file that is of no use any more, and fails. -/
def giveUp (temp : Text) (f : Failure) : FileProgram (Except Failure Unit) :=
  .step (.remove temp) fun _ => .done (.error f)

/-- Gives a file its content in pieces: at first as much of it as `cuts` say, and at last all of
it. -/
def fillSteps (temp content : Text) : List ℕ → FileProgram (Except FileError Unit)
  | [] => .step (.write temp content) .done
  | k :: cuts => .step (.write temp (content.take k)) fun
    | .error e => .done (.error e)
    | .ok _ => fillSteps temp content cuts

/-- Moves a file to the place of a report. -/
def moveSteps (path temp : Text) : FileProgram (Except Failure Unit) :=
  .step (.rename temp path) fun
    | .error e => giveUp temp (.during "write report" (.file e))
    | .ok _ => .done (.ok ())

/-- Writes a report to a file that is there, and moves it into place. -/
def deliverSteps (cuts : List ℕ) (path temp : Text) (r : Report) :
    FileProgram (Except Failure Unit) :=
  match r.encode? with
  | none => giveUp temp (.other "encode report")
  | some content => (fillSteps temp content cuts).bind fun
    | .error e => giveUp temp (.during "write report" (.file e))
    | .ok _ => moveSteps path temp

/-- Writes a report, operation by operation. -/
def writeSteps (cuts : List ℕ) (path : Text) (r : Report) : FileProgram (Except Failure Unit) :=
  (FileProgram.makeDirs (Path.dir path)).bind fun
    | .error e => .done (.error (.during "create report directory" (.file e)))
    | .ok _ => .step (.createTemp (Path.dir path) (tempFront path)) fun
      | .error e => .done (.error (.during "create report" (.file e)))
      | .ok temp => deliverSteps cuts path temp r

/-! ### What can be seen -/

/-- The place has the name of a temporary file of the report. -/
def IsTemp (path : Text) (q : Place) : Prop :=
  ∃ d i, q = d ++ [tempFront path ++ Text.ofNat i]

/-- There is the complete report in a file with the permission bits of a temporary file. -/
def IsReport (r : Report) (fs : FileSystem) (n : Option FileNode) : Prop :=
  ∃ content modified, r.encode? = some content ∧
    n = some (.file (fs.granted 0o600) content modified)

/-- Nothing but directories and temporary files of the report is new. -/
structure Preparing (path : Text) (fs mid : FileSystem) : Prop where
  keep : ∀ {q : Place} {n : FileNode}, fs.node? q = some n → mid.node? q = some n
  new : ∀ {q : Place} {n : FileNode}, mid.node? q = some n → n ≠ .dir →
    fs.node? q = some n ∨
      IsTemp path q ∧ ∃ content, n = .file (fs.granted 0o600) content fs.clock
  current : mid.current = fs.current
  sound : mid.Sound

/-- The complete report is at the place that its path led to before, which is not named like a
temporary file, and nothing else but directories is new. -/
structure Delivered (r : Report) (path : Text) (target : Place) (fs before mid : FileSystem) :
    Prop where
  led : ∃ there, before.locate false path = .ok (target, there) ∧ there ≠ some .dir
  named : ¬ IsTemp path target
  report : IsReport r fs (mid.node? target)
  keep : ∀ {q : Place} {n : FileNode}, q ≠ target → fs.node? q = some n → mid.node? q = some n
  new : ∀ {q : Place} {n : FileNode}, q ≠ target → mid.node? q = some n → n ≠ .dir →
    fs.node? q = some n
  current : mid.current = fs.current
  sound : mid.Sound

variable {path dir name : Text} {fs fs₁ mid before : FileSystem} {d s target : Place} {r : Report}
  {cuts : List ℕ}

theorem preparing_of_grows (h : fs.Grows mid) : Preparing path fs mid :=
  ⟨h.keep, fun hq hn => .inl (h.new hq hn), h.current, h.sound⟩

theorem preparing_withTemp (hgrows : fs.Grows fs₁) {i : ℕ}
    (hfresh : Fresh dir (tempFront path ++ Text.ofNat i) d fs₁) (content : Text) :
    Preparing path fs (fs₁.withTemp (d ++ [tempFront path ++ Text.ofNat i]) content) where
  keep hq := hfresh.keeps_withTemp content (hgrows.keep hq)
  new {q n} hq hn := by
    rw [node?_withTemp (by simp)] at hq
    split at hq
    · rename_i heq
      exact .inr ⟨⟨d, i, heq⟩, content, by
        rw [← Option.some.inj hq, hgrows.clock, granted_congr hgrows.mask]⟩
    · exact .inl (hgrows.new hq hn)
  current := hgrows.current
  sound := hfresh.sound_withTemp content

theorem not_isTemp (htarget : ∃ d, target = d ++ [Path.base path]) : ¬ IsTemp path target := by
  rintro ⟨d', i, heq⟩
  obtain ⟨d, rfl⟩ := htarget
  obtain ⟨-, hname⟩ := List.append_inj' heq rfl
  have hlength := congrArg List.length (List.cons.inj hname).1
  have hdot : (Text.ofString ".").length = 1 := by decide
  simp only [tempFront, List.length_append, hdot] at hlength
  omega

/-- A program that replaces a report, seen from the files `fs`: at any time it is still preparing or
has delivered the report, and when it fails nothing but directories is new. -/
structure Atomic (r : Report) (path : Text) (fs : FileSystem)
    (p : FileProgram (Except Failure Unit)) (start : FileSystem) : Prop where
  between : ∀ mid ∈ p.states start, Preparing path fs mid ∨
    ∃ before ∈ p.states start, ∃ target, Preparing path fs before ∧
      Delivered r path target fs before mid
  failed : ∀ f, (p.run start).1 = .error f → fs.Grows (p.run start).2
  done : (p.run start).1 = .ok () → ∃ before ∈ p.states start, ∃ target,
    Preparing path fs before ∧ Delivered r path target fs before (p.run start).2

/-- What is prepared may be followed by an atomic program. -/
theorem Atomic.bind {α : Type} {p : FileProgram α} {k : α → FileProgram (Except Failure Unit)}
    {start : FileSystem} (hp : ∀ mid ∈ p.states start, Preparing path fs mid)
    (hk : Atomic r path fs (k (p.run start).1) (p.run start).2) :
    Atomic r path fs (p.bind k) start where
  between mid hmid := by
    rcases (FileProgram.mem_states_bind p k).1 hmid with hmid | hmid
    · exact .inl (hp mid hmid)
    · refine (hk.between mid hmid).imp_right ?_
      rintro ⟨before, hbefore, target, hprepared, hdelivered⟩
      exact ⟨before, (FileProgram.mem_states_bind p k).2 (.inr hbefore), target, hprepared,
        hdelivered⟩
  failed f hf := by
    rw [FileProgram.run_bind] at hf ⊢
    exact hk.failed f hf
  done hok := by
    rw [FileProgram.run_bind] at hok ⊢
    obtain ⟨before, hbefore, target, hprepared, hdelivered⟩ := hk.done hok
    exact ⟨before, (FileProgram.mem_states_bind p k).2 (.inr hbefore), target, hprepared,
      hdelivered⟩

/-- An operation is a program of its own. -/
theorem Atomic.step {β : Type} {op : FileOp β}
    {next : Except FileError β → FileProgram (Except Failure Unit)} {start : FileSystem}
    (hstart : Preparing path fs start)
    (hnext : Atomic r path fs (next (op.act.run start).1) (op.act.run start).2) :
    Atomic r path fs (.step op next) start where
  between mid hmid := by
    rcases List.mem_cons.1 hmid with rfl | hmid
    · exact .inl hstart
    · refine (hnext.between mid hmid).imp_right ?_
      rintro ⟨before, hbefore, hrest⟩
      exact ⟨before, List.mem_cons_of_mem _ hbefore, hrest⟩
  failed f hf := hnext.failed f hf
  done hok := by
    obtain ⟨before, hbefore, hrest⟩ := hnext.done hok
    exact ⟨before, List.mem_cons_of_mem _ hbefore, hrest⟩

/-- A failure that has left nothing but directories. -/
theorem atomic_error (h : fs.Grows mid) (f : Failure) :
    Atomic r path fs (.done (.error f)) mid where
  between mid' hmid' := by
    rw [List.mem_singleton.1 hmid']
    exact .inl (preparing_of_grows h)
  failed _ _ := h
  done hok := by cases hok

/-- The last operation delivers what the ones before it have prepared. -/
theorem atomic_last {β : Type} {op : FileOp β}
    {next : Except FileError β → FileProgram (Except Failure Unit)} {start : FileSystem}
    (hstart : Preparing path fs start) (hnext : next (op.act.run start).1 = .done (.ok ()))
    (hdelivered : ∃ target, Delivered r path target fs start (op.act.run start).2) :
    Atomic r path fs (.step op next) start := by
  obtain ⟨target, hdelivered⟩ := hdelivered
  have hstates : (FileProgram.step op next).states start = [start, (op.act.run start).2] := by
    rw [FileProgram.states, hnext, FileProgram.states]
  have hrun : (FileProgram.step op next).run start = (.ok (), (op.act.run start).2) := by
    rw [FileProgram.run, hnext, FileProgram.run]
  refine ⟨fun mid hmid => ?_, fun f hf => ?_, fun _ => ?_⟩
  · rw [hstates] at hmid
    rcases List.mem_cons.1 hmid with rfl | hmid
    · exact .inl hstart
    · rw [List.mem_singleton.1 hmid]
      exact .inr ⟨start, FileProgram.start_mem_states _ _, target, hstart, hdelivered⟩
  · rw [hrun] at hf
    cases hf
  · rw [hrun]
    exact ⟨start, FileProgram.start_mem_states _ _, target, hstart, hdelivered⟩

/-! ### From the temporary file to the report -/

section Temporary

variable {i : ℕ} (hgrows : fs.Grows fs₁)
  (hfresh : Fresh dir (tempFront path ++ Text.ofNat i) d fs₁) (content : Text)

include hgrows hfresh

theorem giveUp_atomic (f : Failure) :
    Atomic r path fs (giveUp (Path.join [dir, tempFront path ++ Text.ofNat i]) f)
      (fs₁.withTemp (d ++ [tempFront path ++ Text.ofNat i]) content) := by
  refine .step (preparing_withTemp hgrows hfresh content) ?_
  rw [FileOp.act, hfresh.remove_run]
  exact atomic_error (hgrows.congr (hfresh.node?_erase content) rfl rfl rfl) f

theorem moveSteps_atomic (hencode : r.encode? = some content) :
    Atomic r path fs (moveSteps path (Path.join [dir, tempFront path ++ Text.ofNat i]))
      (fs₁.withTemp (d ++ [tempFront path ++ Text.ofNat i]) content) := by
  have hprepared := preparing_withTemp hgrows hfresh content
  rcases hfresh.rename_run content path with ⟨e, hrename⟩ | ⟨target, there, hlocate, hdir, hrename⟩
  · refine .step hprepared ?_
    rw [FileOp.act, hrename]
    exact giveUp_atomic hgrows hfresh content _
  obtain ⟨d', htarget⟩ := locate_base hlocate hdir
  have hnode := hfresh.node?_moved content (q := target) (by simp [htarget])
  refine atomic_last hprepared (by rw [FileOp.act, hrename]) ⟨target, ?_⟩
  rw [FileOp.act, hrename]
  refine ⟨⟨there, hlocate, hdir⟩, not_isTemp ⟨d', htarget⟩, ⟨content, fs₁.clock, hencode, ?_⟩,
    fun hq hn => ?_, fun hq hn hd => ?_, hgrows.current, hfresh.sound_moved content hlocate hdir⟩
  · rw [hnode, if_pos rfl, granted_congr hgrows.mask]
  · rw [hnode, if_neg hq]
    exact hgrows.keep hn
  · rw [hnode, if_neg hq] at hn
    exact hgrows.new hn hd

omit hgrows in
theorem fillSteps_run (all : Text) (cuts : List ℕ) :
    (fillSteps (Path.join [dir, tempFront path ++ Text.ofNat i]) all cuts).run
      (fs₁.withTemp (d ++ [tempFront path ++ Text.ofNat i]) content) =
        (.ok (), fs₁.withTemp (d ++ [tempFront path ++ Text.ofNat i]) all) := by
  induction cuts generalizing content with
  | nil =>
    rw [fillSteps, FileProgram.run, FileOp.act, hfresh.write_run]
    rfl
  | cons k cuts ih =>
    rw [fillSteps, FileProgram.run, FileOp.act, hfresh.write_run]
    exact ih (all.take k)

/-- Until then only the temporary file is new. -/
theorem fillSteps_states {all : Text} {cuts : List ℕ}
    (h : mid ∈ (fillSteps (Path.join [dir, tempFront path ++ Text.ofNat i]) all cuts).states
      (fs₁.withTemp (d ++ [tempFront path ++ Text.ofNat i]) content)) : Preparing path fs mid := by
  induction cuts generalizing content with
  | nil =>
    rw [fillSteps, FileProgram.states, FileOp.act, hfresh.write_run] at h
    rcases List.mem_cons.1 h with rfl | h
    · exact preparing_withTemp hgrows hfresh content
    · exact List.mem_singleton.1 h ▸ preparing_withTemp hgrows hfresh all
  | cons k cuts ih =>
    rw [fillSteps, FileProgram.states, FileOp.act, hfresh.write_run] at h
    rcases List.mem_cons.1 h with rfl | h
    · exact preparing_withTemp hgrows hfresh content
    · exact ih (all.take k) h

/-- From the temporary file on the report is replaced at once. -/
theorem deliverSteps_atomic (r : Report) (cuts : List ℕ) :
    Atomic r path fs (deliverSteps cuts path (Path.join [dir, tempFront path ++ Text.ofNat i]) r)
      (fs₁.withTemp (d ++ [tempFront path ++ Text.ofNat i]) content) := by
  rw [deliverSteps]
  split
  · exact giveUp_atomic hgrows hfresh content _
  · rename_i all hencode
    refine .bind (fun mid hmid => fillSteps_states hgrows hfresh content hmid) ?_
    rw [fillSteps_run hfresh]
    exact moveSteps_atomic hgrows hfresh all hencode

omit hgrows in
/-- Step by step the same happens as at once. -/
theorem deliverSteps_run (r : Report) (cuts : List ℕ) :
    (deliverSteps cuts path (Path.join [dir, tempFront path ++ Text.ofNat i]) r).run
        (fs₁.withTemp (d ++ [tempFront path ++ Text.ofNat i]) content) =
      (tryCatch (fillAndMove path (Path.join [dir, tempFront path ++ Text.ofNat i]) r) fun f => do
        dropTemp (Path.join [dir, tempFront path ++ Text.ofNat i])
        throw f : FileTask Unit).run
          (fs₁.withTemp (d ++ [tempFront path ++ Text.ofNat i]) content) := by
  rw [tryCatch_run, fillAndMove, deliverSteps]
  cases hencode : r.encode? with
  | none => rfl
  | some all =>
    have hwrite : (Files.write (Path.join [dir, tempFront path ++ Text.ofNat i]) all 0o600 >>=
        fun _ => Files.rename (Path.join [dir, tempFront path ++ Text.ofNat i]) path).run
          (fs₁.withTemp (d ++ [tempFront path ++ Text.ofNat i]) content) = _ :=
      run_bind_ok (hfresh.write_run content all)
    dsimp only
    rw [FileProgram.run_bind, fillSteps_run hfresh, FileTask.during_run, FileTask.ofFiles_run,
      hwrite, moveSteps, FileProgram.run, FileOp.act]
    dsimp only
    generalize (Files.rename _ path).run _ = moved
    obtain ⟨e | u, fs'⟩ := moved <;> rfl

end Temporary

/-! ### The whole program -/

theorem write_run (path : Text) (r : Report) (fs : FileSystem) :
    (write path r).run fs =
      match (Files.makeDirs (Path.dir path)).run fs with
      | (.error e, fs) => (.error (.during "create report directory" (.file e)), fs)
      | (.ok _, fs) =>
        match (Files.createTemp (Path.dir path) (tempFront path)).run fs with
        | (.error e, fs) => (.error (.during "create report" (.file e)), fs)
        | (.ok temp, fs) => (tryCatch (fillAndMove path temp r) fun f => do
            dropTemp temp
            throw f : FileTask Unit).run fs := by
  rw [write, run_bind, FileTask.during_run, FileTask.ofFiles_run]
  rcases (Files.makeDirs (Path.dir path)).run fs with ⟨e | u, fs'⟩
  · rfl
  dsimp only
  rw [run_bind, FileTask.during_run, FileTask.ofFiles_run]
  rcases (Files.createTemp (Path.dir path) (tempFront path)).run fs' with ⟨e | temp, fs''⟩ <;> rfl

/-- **Operation by operation the same is done as at once.** -/
theorem writeSteps_run (hs : fs.Sound) (cuts : List ℕ) (path : Text) (r : Report) :
    (writeSteps cuts path r).run fs = (write path r).run fs := by
  have hgrows := Files.makeDirs_grows hs (Path.dir path)
  rw [write_run, writeSteps, FileProgram.run_bind, FileProgram.makeDirs_run]
  generalize (Files.makeDirs (Path.dir path)).run fs = made at hgrows
  obtain ⟨e | u, fs₁⟩ := made
  · rfl
  dsimp only
  rw [FileProgram.run, FileOp.act]
  cases hcreate : (Files.createTemp (Path.dir path) (tempFront path)).run fs₁ with
  | mk result fs₂ =>
  cases result with
  | error e => rfl
  | ok temp =>
    obtain ⟨i, d, hfresh, rfl, rfl⟩ := Files.createTemp_fresh hgrows.sound hcreate
    exact deliverSteps_run hfresh [] r cuts

/-- **A report is replaced at once.** -/
theorem writeSteps_atomic (hs : fs.Sound) (cuts : List ℕ) (path : Text) (r : Report) :
    Atomic r path fs (writeSteps cuts path r) fs := by
  have hgrows := Files.makeDirs_grows hs (Path.dir path)
  refine .bind (fun mid hmid => preparing_of_grows (FileProgram.makeDirs_states hs _ hmid)) ?_
  rw [FileProgram.makeDirs_run]
  generalize (Files.makeDirs (Path.dir path)).run fs = made at hgrows ⊢
  obtain ⟨e | u, fs₁⟩ := made
  · exact atomic_error hgrows _
  refine .step (preparing_of_grows hgrows) ?_
  rw [FileOp.act]
  cases hcreate : (Files.createTemp (Path.dir path) (tempFront path)).run fs₁ with
  | mk result fs₂ =>
  cases result with
  | error e =>
    obtain rfl := Files.createTemp_error hcreate
    exact atomic_error hgrows _
  | ok temp =>
    obtain ⟨i, d, hfresh, rfl, rfl⟩ := Files.createTemp_fresh hgrows.sound hcreate
    exact deliverSteps_atomic hgrows hfresh [] r cuts

/-! ### A place of its own -/

theorem Preparing.direct (h : Preparing path fs mid) (hd : Direct path s fs) :
    Direct path s mid := by
  refine hd.mono (fun q n _ => h.keep) (fun q t _ hq => ?_) h.current
  rcases h.new hq (by simp) with hq | ⟨-, content, hq⟩
  · exact hq
  · simp at hq

/-- As long as a report is being prepared, its path leads to what was there before. -/
theorem Preparing.fileOf?_eq (h : Preparing path fs mid) (hs : fs.Sound) (hd : Direct path s fs) :
    mid.fileOf? path = fs.fileOf? path := by
  rw [hd.fileOf?_eq hs, (h.direct hd).fileOf?_eq h.sound]
  cases hnode : fs.node? s with
  | some n => rw [h.keep hnode]
  | none =>
    -- only a directory can be new there, for temporary files have other names
    rcases hmid : mid.node? s with _ | n
    · rfl
    by_cases hdir : n = .dir
    · simp [hdir, FileNode.isDir]
    · rcases h.new hmid hdir with hold | ⟨htemp, -⟩
      · simp [hnode] at hold
      · exact absurd htemp (not_isTemp hd.base.2)

theorem Delivered.direct (h : Delivered r path target fs before mid)
    (hbefore : Preparing path fs before) (hd : Direct path s fs) :
    target = s ∧ Direct path s mid := by
  obtain ⟨there, hlocate, hdir⟩ := h.led
  obtain rfl : target = s := by
    rcases (hbefore.direct hd).locate hbefore.sound with hat | ⟨⟨e, hat⟩, -⟩
    · rw [hlocate] at hat
      exact congrArg Prod.fst (Except.ok.inj hat)
    · rw [hlocate] at hat
      cases hat
  have hne : ∀ {q : Place}, ¬ target <+: q → q ≠ target := by
    rintro q hq rfl
    exact hq (List.prefix_refl q)
  exact ⟨rfl, hd.mono (fun q n hq => h.keep (hne hq)) (fun q t hq hn => h.new (hne hq) hn (by simp))
    h.current⟩

theorem Delivered.isReport_fileOf? (h : Delivered r path target fs before mid)
    (hbefore : Preparing path fs before) (hd : Direct path s fs) :
    IsReport r fs (mid.fileOf? path) := by
  obtain ⟨rfl, hd'⟩ := h.direct hbefore hd
  obtain ⟨content, modified, hencode, hnode⟩ := h.report
  rw [hd'.fileOf?_eq h.sound, hnode]
  exact ⟨content, modified, hencode, rfl⟩

/-- **A report is replaced at once**, whatever the files, the path and the report are like, and
whatever pieces it is written in.  What can be seen on the way are the files as they were, but for
directories and temporary files, and at last the complete report; an error leaves neither the report
nor a temporary file.  A path that leads to a place of its own leads to what was there before or to
the complete report all the time. -/
theorem write_atomic (hs : fs.Sound) (path : Text) (r : Report) (cuts : List ℕ) :
    (writeSteps cuts path r).run fs = (write path r).run fs ∧
      Atomic r path fs (writeSteps cuts path r) fs ∧
      ∀ s, Direct path s fs →
        (∀ mid ∈ (writeSteps cuts path r).states fs,
          mid.fileOf? path = fs.fileOf? path ∨ IsReport r fs (mid.fileOf? path)) ∧
        match (write path r).run fs with
        | (.error _, fs') => fs'.fileOf? path = fs.fileOf? path
        | (.ok _, fs') => IsReport r fs (fs'.fileOf? path) := by
  have hrun := writeSteps_run hs cuts path r
  have hatomic := writeSteps_atomic hs cuts path r
  refine ⟨hrun, hatomic, fun s hd => ⟨fun mid hmid => ?_, ?_⟩⟩
  · rcases hatomic.between mid hmid with hprepared | ⟨before, -, target, hprepared, hdelivered⟩
    · exact .inl (hprepared.fileOf?_eq hs hd)
    · exact .inr (hdelivered.isReport_fileOf? hprepared hd)
  · rw [← hrun]
    have hfailed := hatomic.failed
    have hdone := hatomic.done
    generalize (writeSteps cuts path r).run fs = after at hfailed hdone
    obtain ⟨f | u, fs'⟩ := after
    · exact (preparing_of_grows (hfailed f rfl)).fileOf?_eq hs hd
    · obtain ⟨before, -, target, hprepared, hdelivered⟩ := hdone rfl
      exact hdelivered.isReport_fileOf? hprepared hd

/-- A report takes the place of another one. -/
theorem write_atomic_replaced :
    let fs := ({} : FileSystem).put ["r.json"] (.file 0o644 "{}" Time.zero)
    let r : Report := { framework := "a" }
    fs.Sound ∧ ((write "/r.json" r).run fs).1 = .ok () ∧
      IsReport r fs (((write "/r.json" r).run fs).2.fileOf? "/r.json") ∧
      ∀ mid ∈ (writeSteps [0, 10] "/r.json" r).states fs,
        mid.fileOf? "/r.json" = fs.fileOf? "/r.json" ∨ IsReport r fs (mid.fileOf? "/r.json") := by
  intro fs r
  have hs : fs.Sound := sound_empty.put (d := []) rfl (by simp [node?]) _
  have hd : Direct "/r.json" ["r.json"] fs :=
    direct_root fs ⟨by decide, by decide, by decide, by decide⟩ (by decide) (by decide)
  have hok : ((write "/r.json" r).run fs).1 = .ok () := by cbv
  obtain ⟨-, -, hheld⟩ := write_atomic hs "/r.json" r [0, 10]
  obtain ⟨hbetween, hafter⟩ := hheld ["r.json"] hd
  refine ⟨hs, hok, ?_, hbetween⟩
  generalize (write "/r.json" r).run fs = after at hok hafter
  obtain ⟨f | u, fs'⟩ := after
  · cases hok
  · exact hafter

/-- A path that leads through its own last place leads nowhere once the report is there. -/
theorem detour_not_held :
    let fs := (({} : FileSystem).put ["sub"] .dir).put ["x"] (.link "sub")
    let r : Report := { framework := "l" }
    let after := (write "x/../x" r).run fs
    fs.Sound ∧ after.1 = .ok () ∧ after.2.fileOf? "x/../x" ≠ fs.fileOf? "x/../x" ∧
      ¬ IsReport r fs (after.2.fileOf? "x/../x") := by
  intro fs r after
  have hs : fs.Sound := by
    have hsub := sound_empty.put (d := []) (c := "sub") rfl (by simp [node?]) .dir
    exact hsub.put (d := []) rfl (by decide) _
  have hok : after.1 = .ok () := by
    simp only [after, fs, r]
    cbv
  have hnone : after.2.fileOf? "x/../x" = none := by
    simp only [after, fs, r]
    cbv
  have hlink : fs.fileOf? "x/../x" = some (.link "sub") := by
    simp only [fs]
    cbv
  refine ⟨hs, hok, by simp [hnone, hlink], ?_⟩
  rw [hnone]
  rintro ⟨content, modified, -, hnode⟩
  cases hnode

end Report

end MetricHistory
