import MetricHistory.Analyzer.Program
import MetricHistory.Proofs.Action
import MetricHistory.Proofs.Analyzer.Acceptance
import MetricHistory.Proofs.FileSystem.Sources

/-!
# Outcomes of measurements

A measurement has one of three outcomes, and which one depends on two things only: whether the
directory has sources, and whether the analyzer delivers a document.

* `AnalyzerProgram.outcome?` is what the analyzer does, if it is started at all; `Delivers` says that
  this gives a document, and `BreaksDown` that its output cannot be checked;
* `AnalyzerProgram.launch_comes` : whatever the analyzer does, no failure of it is taken for missing
  sources;
* `Measurement.Sorted` is the sorting into the three outcomes;
* `AnalyzerProgram.measure_sorted_iff` : **measurements are sorted by the sources and the document,
  unless the check of the output breaks down, and without sources nothing is started.**
-/

namespace MetricHistory

variable {o : Option ProgramOutcome} {d d' : Document} {f : Failure} {sources : Prop}

/-! ### What the analyzer does -/

namespace AnalyzerProgram

/-- The program ends with success, and its output is a document. -/
def Delivers (o : Option ProgramOutcome) (d : Document) : Prop :=
  ∃ out, o = some out ∧ out.ending = .exited 0 ∧ Document.parse out.output = .ok d

/-- The program ends with success, but its output breaks the check down. -/
def BreaksDown (o : Option ProgramOutcome) : Prop :=
  ∃ out, o = some out ∧ out.ending = .exited 0 ∧ Document.parse out.output = .error .breakdown

theorem delivers_some_iff {out : ProgramOutcome} :
    Delivers (some out) d ↔ out.ending = .exited 0 ∧ Document.parse out.output = .ok d := by
  simp [Delivers]

theorem breaksDown_some_iff {out : ProgramOutcome} :
    BreaksDown (some out) ↔ out.ending = .exited 0 ∧ Document.parse out.output = .error .breakdown := by
  simp [BreaksDown]

theorem Delivers.unique (h : Delivers o d) (h' : Delivers o d') : d = d' := by
  obtain ⟨out, rfl, -, hparse⟩ := h
  obtain ⟨out', hout, -, hparse'⟩ := h'
  obtain rfl := Option.some.inj hout
  exact Except.ok.inj (hparse.symm.trans hparse')

theorem Delivers.not_breaksDown (h : Delivers o d) : ¬ BreaksDown o := by
  rintro ⟨out, rfl, -, hbreak⟩
  obtain ⟨out', hout, -, hparse⟩ := h
  obtain rfl := Option.some.inj hout
  rw [hbreak] at hparse
  cases hparse

/-- What an analysis makes of the behaviour of the analyzer. -/
inductive Comes (o : Option ProgramOutcome) : Except Failure Document → Prop where
  | delivers {d : Document} (h : Delivers o d) : Comes o (.ok d)
  | breaksDown (h : BreaksDown o) : Comes o (.error (.malformedOutput .breakdown))
  | fails {f : Failure} (hnone : ∀ d, ¬ Delivers o d) (hkept : ¬ BreaksDown o)
      (hfailure : f.isNoSources = false) (hbreakdown : f ≠ .malformedOutput .breakdown) :
      Comes o (.error f)

theorem Comes.ok_iff {r : Except Failure Document} (h : Comes o r) : r = .ok d ↔ Delivers o d := by
  cases h with
  | delivers hd => exact ⟨fun h => Except.ok.inj h ▸ hd, fun h => congrArg _ (hd.unique h)⟩
  | breaksDown hb => exact ⟨fun h => (nomatch h), fun h => absurd hb h.not_breaksDown⟩
  | fails hnone => exact ⟨fun h => (nomatch h), fun h => absurd h (hnone d)⟩

end AnalyzerProgram

/-! ### What a measurement says -/

namespace Measurement

open AnalyzerProgram

/-- What comes back from a measurement: nothing when the check of the output has broken down. -/
def returned? : Measurement → Option Measurement
  | unavailable (.malformedOutput .breakdown) => none
  | m => some m

theorem returned?_unavailable (h : f ≠ .malformedOutput .breakdown) :
    (unavailable f).returned? = some (unavailable f) := by
  unfold returned?
  split
  · rename_i heq
    exact absurd (Measurement.unavailable.inj heq) h
  · rfl

/-- A measurement has a failure exactly when it is unavailable, and values only when it is
measured. -/
def Marked (m : Measurement) : Prop :=
  (m.failure?.isSome = true ↔ m.status = .unavailable) ∧ (m.status ≠ .measured → m.fragment = {})

theorem marked (m : Measurement) : m.Marked := by
  cases m with
  | measured x => exact ⟨by simp [failure?, status], fun h => absurd rfl h⟩
  | empty => exact ⟨by simp [failure?, status], fun _ => rfl⟩
  | unavailable f => exact ⟨by simp [failure?, status], fun _ => rfl⟩

/-- What comes back is empty without sources, measured when there is a document of them, and
unavailable else. -/
structure Sorted (sources : Prop) (o : Option ProgramOutcome) (r : Option Measurement) : Prop where
  empty_iff : r = some .empty ↔ ¬ sources
  measured_iff : ∀ x, r = some (.measured x) ↔ sources ∧ ∃ d, Delivers o d ∧ x = d.fragment
  unavailable_iff : (∃ f, r = some (.unavailable f)) ↔ sources ∧ ∀ d, ¬ Delivers o d

theorem not_sorted (hsources : sources) (hb : BreaksDown o) : ¬ Sorted sources o none := by
  intro h
  obtain ⟨f, hf⟩ := h.unavailable_iff.2 ⟨hsources, fun d hd => hd.not_breaksDown hb⟩
  cases hf

theorem sorted_empty (h : ¬ sources) : Sorted sources o (some empty) where
  empty_iff := by simp [h]
  measured_iff := by simp [h]
  unavailable_iff := by simp [h]

theorem sorted_measured (hsources : sources) (h : Delivers o d) :
    Sorted sources o (some (measured d.fragment)) where
  empty_iff := by simp [hsources]
  measured_iff x := by
    constructor
    · intro hx
      exact ⟨hsources, d, h, (Measurement.measured.inj (Option.some.inj hx)).symm⟩
    · rintro ⟨-, d', hd', rfl⟩
      rw [h.unique hd']
  unavailable_iff := by
    constructor
    · rintro ⟨f, hf⟩
      cases hf
    · exact fun hnone => absurd h (hnone.2 d)

theorem sorted_unavailable (hsources : sources) (h : ∀ d, ¬ Delivers o d) :
    Sorted sources o (some (unavailable f)) where
  empty_iff := by simp [hsources]
  measured_iff x := by simp [h]
  unavailable_iff := by simp [hsources, h]

theorem sorted_ofAnalysis_iff {r : Except Failure Document} (hsources : sources) (h : Comes o r) :
    (Sorted sources o (ofAnalysis r).returned? ↔ ¬ BreaksDown o) ∧
      (BreaksDown o → (ofAnalysis r).returned? = none) := by
  cases h with
  | delivers hd =>
    exact ⟨⟨fun _ => hd.not_breaksDown, fun _ => sorted_measured hsources hd⟩,
      fun hb => absurd hb hd.not_breaksDown⟩
  | breaksDown hb =>
    exact ⟨⟨fun h => absurd h (not_sorted hsources hb), fun h => absurd hb h⟩, fun _ => rfl⟩
  | fails hnone hkept hfailure hbreakdown =>
    rw [ofAnalysis, hfailure, if_neg Bool.false_ne_true, returned?_unavailable hbreakdown]
    exact ⟨⟨fun _ => hkept, fun _ => sorted_unavailable hsources hnone⟩, fun hb => absurd hb hkept⟩

end Measurement

/-! ### Measurements -/

namespace AnalyzerProgram

open Measurement

variable {a : AnalyzerProgram} {p : Profile} {dir : Text} {w : World Machine}

/-- What the program does on a directory.  It does nothing when it is not started, because the work
has been called off, no time is given or it cannot be run. -/
def outcome? (a : AnalyzerProgram) (p : Profile) (dir : Text) (w : World Machine) :
    Option ProgramOutcome :=
  let (program, arguments) := a.commandLine p dir
  if w.canceled then none
  else if p.timeout ≤ 0 then none
  else
    match w.outside.programs.obstacle? w.files program with
    | some _ => none
    | none => some (w.outside.programs.behavior program arguments w.files)

theorem judge_comes (p : Profile) (out : ProgramOutcome) : Comes (some out) (judge p out) := by
  have hfailed : ∀ {detail}, out.ending ≠ .exited 0 →
      Comes (some out) (.error (.analyzerFailed detail)) := fun hending =>
    .fails (fun _ h => hending (delivers_some_iff.1 h).1)
      (fun h => hending (breaksDown_some_iff.1 h).1) rfl (fun h => nomatch h)
  unfold judge
  split
  · rename_i hending
    exact hfailed (by simp [hending])
  · rename_i hending
    exact hfailed (by simp [hending])
  · rename_i hending
    cases hparse : Document.parse out.output with
    | ok d => exact .delivers (delivers_some_iff.2 ⟨hending, hparse⟩)
    | error e =>
      by_cases he : e = .breakdown
      · subst he
        exact .breaksDown (breaksDown_some_iff.2 ⟨hending, hparse⟩)
      · refine .fails (fun d hd => ?_) (fun hb => ?_) rfl (fun h => he (Failure.malformedOutput.inj h))
        · exact nomatch hparse.symm.trans (delivers_some_iff.1 hd).2
        · exact he (Except.error.inj (hparse.symm.trans (breaksDown_some_iff.1 hb).2))
  · rename_i n hn hending
    exact hfailed (by rw [hending]; exact fun h => hn (ProgramEnd.exited.inj h))

theorem not_started_comes (detail : Text) : Comes none (.error (.analyzerFailed detail)) :=
  .fails (by rintro d ⟨_, h, -⟩; cases h) (by rintro ⟨_, h, -⟩; cases h) rfl (fun h => nomatch h)

/-- Whatever the analyzer does, no failure of it is taken for missing sources. -/
theorem launch_comes (a : AnalyzerProgram) (p : Profile) (dir : Text) (w : World Machine) :
    Comes (a.outcome? p dir w) (a.launch p dir w.outside.programs w.canceled w.files).1 := by
  unfold outcome? launch
  dsimp only
  split
  · exact not_started_comes _
  split
  · exact not_started_comes _
  cases w.outside.programs.obstacle? w.files (a.commandLine p dir).1 with
  | some reason => exact not_started_comes _
  | none => exact judge_comes _ _

theorem measureFull_run (a : AnalyzerProgram) (dir : Text) (w : World Machine) :
    ((a.measurer.measureFull dir).run w).1 =
      (a.analyze a.full dir w.outside.programs w.canceled w.files).1 := rfl

theorem measure_run (a : AnalyzerProgram) (dir : Text) (w : World Machine) :
    ((a.measurer.measure dir).run w).1 =
      ofAnalysis (a.analyze a.delta dir w.outside.programs w.canceled w.files).1 := rfl

theorem measure_world (a : AnalyzerProgram) (dir : Text) (w : World Machine) :
    ((a.measurer.measure dir).run w).2 =
      { w with outside.programs :=
          (a.analyze a.delta dir w.outside.programs w.canceled w.files).2 } := rfl

/-- An analysis launches the analyzer when there are sources, and does nothing else. -/
theorem analyze_eq (hs : w.files.Sound) (hd : w.files.Distinct)
    (hdir : w.files.find false dir = .error .noEntry ∨
      ∃ d, w.files.find false dir = .ok (d, .dir)) (p : Profile) :
    (w.files.HasSources dir a.extensions ∧
        a.analyze p dir w.outside.programs w.canceled w.files =
          a.launch p dir w.outside.programs w.canceled w.files) ∨
      ¬ w.files.HasSources dir a.extensions ∧
        a.analyze p dir w.outside.programs w.canceled w.files =
          (.error .noSources, w.outside.programs) := by
  obtain ⟨answer, hrun, hanswer⟩ := Files.hasSources_run hs hd hdir a.extensions
  cases answer with
  | true =>
    refine .inl ⟨hanswer.1 rfl, ?_⟩
    rw [analyze, hrun]
  | false =>
    refine .inr ⟨fun h => Bool.false_ne_true (hanswer.2 h), ?_⟩
    rw [analyze, hrun]

/-- **Measurements are sorted by the sources and the document, unless the check of the output breaks
down, and without sources nothing is started.**  What is measured are the values of the document that
a measurement of a full tree returns when the analyzer does the same for it. -/
theorem measure_sorted_iff (hs : w.files.Sound) (hd : w.files.Distinct)
    (hdir : w.files.find false dir = .error .noEntry ∨
      ∃ d, w.files.find false dir = .ok (d, .dir)) :
    (Sorted (w.files.HasSources dir a.extensions) (a.outcome? a.delta dir w)
          ((a.measurer.measure dir).run w).1.returned? ↔
        ¬ (w.files.HasSources dir a.extensions ∧ BreaksDown (a.outcome? a.delta dir w))) ∧
      (w.files.HasSources dir a.extensions → BreaksDown (a.outcome? a.delta dir w) →
        ((a.measurer.measure dir).run w).1.returned? = none) ∧
      (¬ w.files.HasSources dir a.extensions → ((a.measurer.measure dir).run w).2 = w) ∧
      ((a.measurer.measure dir).run w).1.Marked ∧
      (w.files.HasSources dir a.extensions → a.outcome? a.full dir w = a.outcome? a.delta dir w →
        ∀ d, ((a.measurer.measureFull dir).run w).1 = .ok d ↔
          Delivers (a.outcome? a.delta dir w) d) := by
  have hanalyze := analyze_eq (a := a) hs hd hdir
  rw [measure_run, measure_world, measureFull_run]
  refine ⟨?_, fun hsources hb => ?_, fun hnone => ?_, marked _, fun hsources hsame d => ?_⟩
  · rcases hanalyze a.delta with ⟨hsources, heq⟩ | ⟨hnone, heq⟩
    · rw [heq, (sorted_ofAnalysis_iff hsources (launch_comes a a.delta dir w)).1]
      simp [hsources]
    · rw [heq]
      exact ⟨fun _ h => hnone h.1, fun _ => sorted_empty hnone⟩
  · obtain ⟨-, heq⟩ := (hanalyze a.delta).resolve_right fun h => h.1 hsources
    rw [heq]
    exact (sorted_ofAnalysis_iff hsources (launch_comes a a.delta dir w)).2 hb
  · obtain ⟨-, heq⟩ := (hanalyze a.delta).resolve_left fun h => hnone h.1
    rw [heq]
  · obtain ⟨-, heq⟩ := (hanalyze a.full).resolve_right fun h => h.1 hsources
    rw [heq, ← hsame]
    exact (launch_comes a a.full dir w).ok_iff

/-- A disk with the directory `t`, which holds a directory named like a source, and in it a link that
is a source. -/
def linkedDisk : FileSystem :=
  ((FileSystem.put {} ["t"] .dir).put ["t", "b.php"] .dir).put ["t", "b.php", "a.php"]
    (.link "nowhere")

theorem linkedDisk_sound : linkedDisk.Sound :=
  ((FileSystem.sound_empty.put (d := []) rfl (by decide) .dir).put
    (d := ["t"]) (by decide) (by decide) .dir).put (d := ["t", "b.php"]) (by decide) (by decide) _

theorem linkedDisk_distinct : linkedDisk.Distinct := by
  have hempty : FileSystem.Distinct {} := List.nodup_nil
  exact ((hempty.put _ _).put _ _).put _ _

theorem linkedDisk_find : linkedDisk.find false "t" = .ok (["t"], .dir) := by
  cbv

theorem linkedDisk_hasSources : linkedDisk.HasSources "t" [Text.ofString ".php"] :=
  ⟨["t"], linkedDisk_find, ["b.php"], "a.php", .link "nowhere", by decide, rfl, ".php", by simp,
    by decide⟩

/-- An analyzer that needs no interpreter. -/
def counting : AnalyzerProgram where
  script := Text.ofString "count"
  interpreter := []
  extensions := [Text.ofString ".php"]

/-- A computer with that disk, on which the analyzer always writes the same. -/
def countingWorld (output : Text) : World Machine where
  files := linkedDisk
  outside :=
    { programs := { named := [Text.ofString "count"], behavior := fun _ _ _ => { output } } }

/-- A directory with a link as its only source is measured. -/
theorem measure_sorted_iff_linked :
    let w := countingWorld "\x7b\"production\":\x7b\"loc\":7\x7d\x7d"
    w.files.Sound ∧ w.files.Distinct ∧ w.files.find false "t" = .ok (["t"], .dir) ∧
      ∃ d, Delivers (counting.outcome? counting.delta "t" w) d ∧
        ((counting.measurer.measureFull "t").run w).1 = .ok d ∧
        ((counting.measurer.measure "t").run w).1.returned? = some (.measured d.fragment) := by
  intro w
  obtain ⟨d, hd⟩ : ∃ d, Delivers (counting.outcome? counting.delta "t" w) d := by
    have haccepted : (Document.parse "\x7b\"production\":\x7b\"loc\":7\x7d\x7d").toOption.isSome =
        true := by decide +kernel
    cases hparse : Document.parse "\x7b\"production\":\x7b\"loc\":7\x7d\x7d" with
    | error e => simp [hparse, Except.toOption] at haccepted
    | ok d => exact ⟨d, delivers_some_iff.2 ⟨rfl, hparse⟩⟩
  obtain ⟨hsorted, -, -, -, hfull⟩ := measure_sorted_iff (a := counting) (w := w) linkedDisk_sound
    linkedDisk_distinct (.inr ⟨_, linkedDisk_find⟩)
  have hmeasured := (hsorted.2 fun h => hd.not_breaksDown h.2).measured_iff d.fragment
  exact ⟨linkedDisk_sound, linkedDisk_distinct, linkedDisk_find, d, hd,
    (hfull linkedDisk_hasSources rfl d).2 hd, hmeasured.2 ⟨linkedDisk_hasSources, d, hd, rfl⟩⟩

/-- The analyzer ends with success, but its output has a number that cannot be computed: the
measurement is neither empty nor measured nor unavailable. -/
theorem measure_unsorted :
    let w := countingWorld "\x7b\"production\":\x7b\"loc\":1\x7d,\"testLoc\":1e1000001\x7d"
    w.files.Sound ∧ w.files.Distinct ∧ w.files.find false "t" = .ok (["t"], .dir) ∧
      ¬ Sorted (w.files.HasSources "t" counting.extensions)
        (counting.outcome? counting.delta "t" w)
        ((counting.measurer.measure "t").run w).1.returned? := by
  intro w
  have hb : BreaksDown (counting.outcome? counting.delta "t" w) := by
    have hbreaks : (Json.parse? "\x7b\"production\":\x7b\"loc\":1\x7d,\"testLoc\":1e1000001\x7d").any
        Schema.breaksDown = true := by decide +kernel
    obtain ⟨j, hj, hbreaks⟩ := (Option.any_eq_true _ _).1 hbreaks
    exact breaksDown_some_iff.2 ⟨rfl, Document.parse_eq_breakdown_iff.2 ⟨j, hj, hbreaks⟩⟩
  obtain ⟨-, heq⟩ := (analyze_eq (a := counting) (w := w) linkedDisk_sound linkedDisk_distinct
    (.inr ⟨_, linkedDisk_find⟩) counting.delta).resolve_right fun h => h.1 linkedDisk_hasSources
  refine ⟨linkedDisk_sound, linkedDisk_distinct, linkedDisk_find, ?_⟩
  have hcomes := launch_comes counting counting.delta "t" w
  rw [measure_run, heq]
  exact fun h => (sorted_ofAnalysis_iff linkedDisk_hasSources hcomes).1.1 h hb

end AnalyzerProgram

end MetricHistory
