import Mathlib
import MetricHistory.Proofs.Analyzer.Figures
import MetricHistory.Report.Summary

/-!
# Measurements and their summary

The figures of a measurement are read twice: by `Document.parse` from the whole output of the
analyzer, and by `Summary.row` from the production object that a snapshot keeps.

* `Summary.row_ofDocument` : when the summary can read the figures, and which it reads.
* `Summary.ofReport_agrees_iff` : the two agree exactly on plain documents (`Document.Plain`).
-/

namespace MetricHistory

namespace Document

open Json

/-- The two readings of a sum agree: it is the last value that the production object gives for it, or
what stands next to the production object is what the production object gives, zero for nothing. -/
def SumAgrees (name : Text) (j : Json) : Prop :=
  finalNumber? (figures name j) ≠ none ∨
    (finalNumber? (aside name j)).getD 0 = (lastNumber? Literal.float? (figures name j)).getD 0

/-- The output gives its figures plainly: every number given for the lines of code is spelled as a
64-bit integer, the last of them is not changed by rounding to a double, and the sums agree. -/
structure Plain (j : Json) : Prop where
  spelled : ∀ literal ∈ literals (figures "loc" j), (Literal.int64? literal).isSome = true
  exact : ∀ literal, (literals (figures "loc" j)).getLast? = some literal →
    Literal.int64? literal = some (Binary64.truncate (floatOf literal))
  ccnSum : SumAgrees "ccnSum" j
  miDebtSum : SumAgrees "miDebtSum" j

theorem firstSum_eq_iff {name : Text} {j : Json} :
    (lastNumber? Literal.float? (figures name j)).getD 0 =
        firstSum (finalNumber? (figures name j)) (finalNumber? (aside name j)) ↔
      SumAgrees name j := by
  unfold SumAgrees firstSum
  cases hfinal : finalNumber? (figures name j) with
  | none => simp [eq_comm]
  | some x =>
    -- a number in the last place is also the last number
    have hlast : lastNumber? Literal.float? (figures name j) = some x := by
      unfold finalNumber? at hfinal
      split at hfinal
      · rename_i literal hl
        obtain ⟨init, hinit⟩ := List.getLast?_eq_some_iff.1 hl
        rw [lastNumber?, hinit, literals, List.filterMap_append]
        simpa using hfinal
      · simp at hfinal
    simp [hlast]

end Document

namespace Summary

open Json Document

variable {data label hash : Text} {j : Json} {doc : Document}

/-- The row of a measured snapshot is there when the lines of code can be read as integers. -/
theorem row_ofDocument (hj : Json.parse? data = some j) (h : Holds j doc) (label hash : Text) :
    row (Snapshot.ofDocument label hash doc) =
      match decodeAll decodeInt 0 (figures "loc" j) with
      | none => .error ⟨label⟩
      | some loc =>
        .ok {
          date := label, commit := shortHash Snapshot.hashLength hash, loc
          ccnSum := (lastNumber? Literal.float? (figures "ccnSum" j)).getD 0
          miDebtSum := (lastNumber? Literal.float? (figures "miDebtSum" j)).getD 0
          testLoc := doc.testLoc } := by
  have hccn : decodeAll decodeFloat 0 (figures "ccnSum" j) =
      some ((lastNumber? Literal.float? (figures "ccnSum" j)).getD 0) :=
    (decodeAll_eq_some_iff readsNumbers_decodeFloat).2 ⟨h.ccnSum_legible, rfl⟩
  have hmi : decodeAll decodeFloat 0 (figures "miDebtSum" j) =
      some ((lastNumber? Literal.float? (figures "miDebtSum" j)).getD 0) :=
    (decodeAll_eq_some_iff readsNumbers_decodeFloat).2 ⟨h.miDebtSum_legible, rfl⟩
  have hparse := parse?_productionOf hj
  have hne : (productionOf j).source.isEmpty = false := by
    obtain ⟨b, t, ht, -⟩ := (parse?_eq_some hparse).1.exists_cons
    rw [ht]
    rfl
  have hraw : (Snapshot.ofDocument label hash doc).production = (productionOf j).source := h.raw
  unfold row
  simp only [hraw, hne, Bool.false_eq_true, if_false, hparse, Option.bind_some]
  rcases h.production with hnull | ⟨blank, members, hobject⟩
  · have hnone : ∀ name, figures name j = [] := by
      intro name
      rw [figures, hnull]
      rfl
    rw [hnull]
    simp only [hnone]
    rfl
  · have hfigures : ∀ name, matching name (memberList members) = figures name j := by
      intro name
      rw [figures, hobject]
      rfl
    rw [hobject]
    simp only [decodeRecord, field, hfigures, hccn, hmi, Option.bind_eq_bind]
    cases decodeAll decodeInt 0 (figures "loc" j) <;> rfl

theorem truncate_zero : Binary64.truncate 0 = 0 := by decide +kernel

/-- The lines of code are read as the integer of the document exactly when they are spelled as
integers and the last one survives rounding. -/
theorem decodeInt_loc_iff (h : Legible Literal.float? (figures "loc" j)) :
    decodeAll decodeInt 0 (figures "loc" j) =
        some (Binary64.truncate ((lastNumber? Literal.float? (figures "loc" j)).getD 0)) ↔
      (∀ literal ∈ literals (figures "loc" j), (Literal.int64? literal).isSome = true) ∧
        ∀ literal, (literals (figures "loc" j)).getLast? = some literal →
          Literal.int64? literal = some (Binary64.truncate (floatOf literal)) := by
  rw [decodeAll_eq_some_iff readsNumbers_decodeInt]
  have hlegible : Legible Literal.int64? (figures "loc" j) ↔
      ∀ literal ∈ literals (figures "loc" j), (Literal.int64? literal).isSome = true := by
    constructor
    · intro hl literal hmem
      exact hl.isSome (mem_literals.1 hmem)
    · intro hl v hv
      rcases h v hv with hnull | ⟨literal, rfl, -⟩
      · exact .inl hnull
      · exact .inr ⟨literal, rfl, hl literal (mem_literals.2 hv)⟩
  rw [hlegible]
  refine and_congr_right fun hspelled => ?_
  unfold lastNumber? floatOf
  cases hlast : (literals (figures "loc" j)).getLast? with
  | none => simpa using truncate_zero
  | some literal =>
    obtain ⟨i, hi⟩ := Option.isSome_iff_exists.1 (hspelled literal (List.mem_of_getLast? hlast))
    simp [hi, eq_comm]

/-- A report with one snapshot has a summary when the snapshot has a row, which is then the only
one. -/
theorem ofReport_singleton {r : Report} {s : Snapshot} (hr : r.snapshots = [s]) :
    (∀ e, row s = .error e → ofReport r = .error e) ∧
      ∀ x, row s = .ok x → ∃ summary, ofReport r = .ok summary ∧ summary.snapshots = [x] := by
  have hmap : r.snapshots.mapM row = (row s).map fun x => [x] := by
    rw [hr, List.mapM_cons, List.mapM_nil]
    cases row s <;> rfl
  constructor
  · intro e he
    rw [ofReport, hmap, he]
    rfl
  · intro x hx
    rw [ofReport, hmap, hx]
    exact ⟨_, rfl, rfl⟩

theorem ofReport_exists_iff {r : Report} {s : Snapshot} (hr : r.snapshots = [s])
    (P : SnapshotRow → Prop) :
    (∃ summary x, ofReport r = .ok summary ∧ summary.snapshots = [x] ∧ P x) ↔
      ∃ x, row s = .ok x ∧ P x := by
  obtain ⟨hfail, hok⟩ := ofReport_singleton hr
  cases hrow : row s with
  | error e => simp [hfail e hrow]
  | ok x =>
    obtain ⟨summary, hsummary, hrows⟩ := hok x hrow
    simp [hsummary, hrows]

/-- **The summary of a measured snapshot shows the figures of the measurement exactly when the
output of the analyzer gives them plainly.** -/
theorem ofReport_agrees_iff {r : Report} (h : Document.parse data = .ok doc)
    (hr : r.snapshots = [Snapshot.ofDocument label hash doc]) :
    ∃ j, Json.parse? data = some j ∧
      ((∃ summary x, ofReport r = .ok summary ∧ summary.snapshots = [x] ∧
          x.loc = doc.production.loc ∧ x.ccnSum = doc.production.ccnSum ∧
          x.miDebtSum = doc.production.miDebtSum ∧ x.testLoc = doc.testLoc) ↔
        Plain j) := by
  obtain ⟨j, hj, hd⟩ := parse_eq_ok h
  refine ⟨j, hj, ?_⟩
  rw [ofReport_exists_iff hr, row_ofDocument hj hd, hd.loc, hd.ccnSum, hd.miDebtSum]
  have hloc := decodeInt_loc_iff hd.loc_legible
  constructor
  · rintro ⟨x, hx, hxloc, hxccn, hxmi, -⟩
    split at hx
    · simp at hx
    · rename_i loc hread
      cases hx
      obtain ⟨hspelled, hexact⟩ := hloc.1 (hread.trans (congrArg some hxloc))
      exact ⟨hspelled, hexact, firstSum_eq_iff.1 hxccn, firstSum_eq_iff.1 hxmi⟩
  · rintro ⟨hspelled, hexact, hccn, hmi⟩
    rw [hloc.2 ⟨hspelled, hexact⟩]
    exact ⟨_, rfl, rfl, firstSum_eq_iff.2 hccn, firstSum_eq_iff.2 hmi, rfl⟩

/-- An output that spells one line of code with a fraction. -/
def fractional : Text := "\x7b\"production\":\x7b\"loc\":1.0\x7d\x7d"

theorem parse_fractional :
    ∃ doc, Document.parse fractional = .ok doc ∧ doc.production.loc = 1 := by
  have h : (Document.parse fractional).toOption.any (·.production.loc == 1) = true := by
    decide +kernel
  rcases hdoc : Document.parse fractional with f | doc
  · simp [hdoc, Except.toOption] at h
  · exact ⟨doc, rfl, by simpa [hdoc, Except.toOption] using h⟩

theorem ofReport_agrees_iff_fractional :
    ∃ doc, Document.parse fractional = .ok doc ∧
      ∃ j, Json.parse? fractional = some j ∧
        ((∃ summary x,
            ofReport { snapshots := [Snapshot.ofDocument "2024-01" "abc" doc] } = .ok summary ∧
              summary.snapshots = [x] ∧ x.loc = doc.production.loc ∧
              x.ccnSum = doc.production.ccnSum ∧ x.miDebtSum = doc.production.miDebtSum ∧
              x.testLoc = doc.testLoc) ↔
          Plain j) := by
  obtain ⟨doc, hdoc, -⟩ := parse_fractional
  exact ⟨doc, hdoc, ofReport_agrees_iff hdoc rfl⟩

/-- The measurement has one line of code, but no summary can be made of it. -/
theorem ofReport_fractional :
    ∃ doc, Document.parse fractional = .ok doc ∧ doc.production.loc = 1 ∧
      ∀ summary, ofReport { snapshots := [Snapshot.ofDocument "2024-01" "abc" doc] } ≠ .ok summary := by
  obtain ⟨doc, hdoc, hloc⟩ := parse_fractional
  obtain ⟨j, hj, hd⟩ := parse_eq_ok hdoc
  have hunread : decodeAll decodeInt 0 (figures "loc" j) = none := by
    have hall : (Json.parse? fractional).all
        (fun j => (decodeAll decodeInt 0 (figures "loc" j)).isNone) = true := by decide +kernel
    rw [hj] at hall
    simpa using hall
  have hrow := row_ofDocument hj hd "2024-01" "abc"
  rw [hunread] at hrow
  refine ⟨doc, hdoc, hloc, fun summary hok => ?_⟩
  rw [(ofReport_singleton rfl).1 _ hrow] at hok
  simp at hok

end Summary

end MetricHistory
