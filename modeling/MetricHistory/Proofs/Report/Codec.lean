import MetricHistory.Proofs.Json.Records
import MetricHistory.Report.Basic

/-!
# The text of a report

A report is written as a record of records and lists, laid out over several lines, with the findings
of its snapshots among them.  It is read back field by field.

* `IsFinding` : a text that can stand in a report, and `relaid`, the same text as it stands there;
* `Snapshot.Writable.decode_laidOut`, `MonthCount.Writable.decode_laidOut`,
  `YearCount.Writable.decode_laidOut` and `CommitDelta.Writable.decode_laidOut` : the parts of a
  report are read back from their layout;
* `Report.Writable.encode?_eq` and `Report.Writable.parse?_encode` : **a report is read back from its
  text**;
* `Report.Writable.encode?_reread` : **what is read back has the same text.**
-/

namespace MetricHistory

namespace Json

/-- Two texts are JSON values that differ in blank space only. -/
def Respaced (raw raw' : Text) : Prop :=
  ∃ j j', parse? raw = some j ∧ parse? raw' = some j' ∧ stripped j' = stripped j

end Json

open Json

/-- The integer has 64 bits. -/
def IsInt64 (i : ℤ) : Prop := minInt64 ≤ i ∧ i ≤ maxInt64

theorem IsInt64.decodeInt {i : ℤ} (h : IsInt64 i) (start : ℤ) : decodeInt start (ofInt i) = some i :=
  decodeInt_ofInt h.1 h.2 start

/-! ### Findings -/

/-- How deep the findings of a report may be nested. -/
def findingDepth : ℕ := depthLimit - 3

/-- The text is a JSON value that is not too deep for a report. -/
def IsFinding (raw : Text) : Prop := ∃ j, parse? raw = some j ∧ depth j ≤ findingDepth

/-- The text of a finding as it stands in a report. -/
def relaid (raw : Text) : Text := (ofRaw raw).indented 3

namespace IsFinding

variable {raw : Text} (h : IsFinding raw)

include h

theorem parse?_eq : parse? raw = some (ofRaw raw) := by
  obtain ⟨j, hj, -⟩ := h
  rw [ofRaw, hj]
  rfl

theorem fits : Fits findingDepth (ofRaw raw) := by
  obtain ⟨j, hj, hd⟩ := h
  rw [ofRaw, hj]
  exact ⟨(parse?_eq_some hj).1, hd⟩

theorem parse?_relaid : parse? (relaid raw) = some (laidOut 3 (ofRaw raw)) := by
  have hd : depth (ofRaw raw) ≤ depthLimit := h.fits.depth.trans (by decide)
  have hread := parse?_indented h.fits.spelled hd 3 blank_nil
  rwa [List.append_nil] at hread

theorem ofRaw_relaid : ofRaw (relaid raw) = laidOut 3 (ofRaw raw) := by
  rw [ofRaw, h.parse?_relaid]
  rfl

/-- **What stands in a report differs from the finding in blank space only.** -/
theorem respaced : Respaced raw (relaid raw) :=
  ⟨_, _, h.parse?_eq, h.parse?_relaid, stripped_laidOut 3 _⟩

theorem relaid : IsFinding (relaid raw) := by
  have hrespells := laidOut_respells 3 _ h.fits.spelled
  exact ⟨_, h.parse?_relaid, hrespells.depth.trans_le h.fits.depth⟩

end IsFinding

/-! ### Snapshots -/

namespace Snapshot

/-- The snapshot can be written in a report. -/
structure Writable (s : Snapshot) : Prop where
  date : Utf8.valid s.date = true
  commit : Utf8.valid s.commit = true
  testLoc : Binary64.Finite s.testLoc
  production : IsFinding s.production
  surfaceArea : IsFinding s.surfaceArea
  surfaceAreaLists : IsFinding s.surfaceAreaLists
  antipatterns : IsFinding s.antipatterns
  hotspots : IsFinding s.hotspots

/-- Two snapshots have the same date, commit and lines of tests, and findings that differ in blank
space only. -/
structure Respaced (s t : Snapshot) : Prop where
  date : t.date = s.date
  commit : t.commit = s.commit
  testLoc : t.testLoc = s.testLoc
  production : Json.Respaced s.production t.production
  surfaceArea : Json.Respaced s.surfaceArea t.surfaceArea
  surfaceAreaLists : Json.Respaced s.surfaceAreaLists t.surfaceAreaLists
  antipatterns : Json.Respaced s.antipatterns t.antipatterns
  hotspots : Json.Respaced s.hotspots t.hotspots

/-- The snapshot with its findings as they stand in a report. -/
def reread (s : Snapshot) : Snapshot :=
  { s with
    production := relaid s.production
    surfaceArea := relaid s.surfaceArea
    surfaceAreaLists := relaid s.surfaceAreaLists
    antipatterns := relaid s.antipatterns
    hotspots := relaid s.hotspots }

/-- The keys of a snapshot. -/
def keys : List Text :=
  ["date", "commit", "production", "testLoc", "surfaceArea", "surfaceAreaLists", "antipatterns",
   "hotspots"]

theorem apart_keys : Apart keys := by decide +kernel

/-- The values of a snapshot in a report. -/
def values (s : Snapshot) : List Json :=
  [ofText false s.date, ofText false s.commit, ofRaw s.production, number s.testLoc,
   ofRaw s.surfaceArea, ofRaw s.surfaceAreaLists, ofRaw s.antipatterns, ofRaw s.hotspots]

theorem plainKeys_values (s : Snapshot) : PlainKeys (keys.zip s.values) :=
  show ∀ key ∈ keys, Plain key by decide +kernel

/-- The tree of a snapshot in a report. -/
def tree (s : Snapshot) : Json := record (keys.zip s.values)

variable {s : Snapshot}

theorem Writable.reread (h : s.Writable) : s.reread.Writable :=
  ⟨h.date, h.commit, h.testLoc, h.production.relaid, h.surfaceArea.relaid, h.surfaceAreaLists.relaid,
    h.antipatterns.relaid, h.hotspots.relaid⟩

theorem Writable.respaced (h : s.Writable) : s.Respaced s.reread :=
  ⟨rfl, rfl, rfl, h.production.respaced, h.surfaceArea.respaced, h.surfaceAreaLists.respaced,
    h.antipatterns.respaced, h.hotspots.respaced⟩

theorem Writable.isFinding (h : s.Writable) : ∀ raw ∈ s.findings, IsFinding raw := by
  simp only [findings, List.forall_mem_cons, List.not_mem_nil, false_imp_iff, implies_true, and_true]
  exact ⟨h.production, h.surfaceArea, h.surfaceAreaLists, h.antipatterns, h.hotspots⟩

theorem stripped_tree_congr {t : Snapshot} (hdate : s.date = t.date) (hcommit : s.commit = t.commit)
    (htest : s.testLoc = t.testLoc)
    (h : s.findings.map (fun raw => stripped (ofRaw raw)) =
      t.findings.map fun raw => stripped (ofRaw raw)) : stripped s.tree = stripped t.tree := by
  simp only [findings, List.map_cons, List.map_nil, List.cons.injEq, and_true] at h
  obtain ⟨hproduction, harea, hlists, hanti, hhot⟩ := h
  have hvalues : s.values.map stripped = t.values.map stripped := by
    simp only [values, List.map_cons, List.map_nil, hdate, hcommit, htest, hproduction, harea, hlists,
      hanti, hhot]
  rw [tree, tree, stripped_zip, stripped_zip, hvalues]

theorem Writable.stripped_tree_reread (h : s.Writable) :
    stripped s.reread.tree = stripped s.tree := by
  have hrelaid : s.reread.findings = s.findings.map relaid := rfl
  refine stripped_tree_congr rfl rfl rfl ?_
  rw [hrelaid, List.map_map]
  refine List.map_congr_left fun raw hraw => ?_
  rw [Function.comp_apply, (h.isFinding raw hraw).ofRaw_relaid, stripped_laidOut]

theorem json?_eq (h : ∀ raw ∈ s.findings, Json.parse? raw = some (ofRaw raw)) :
    s.json? false = some s.tree := by
  simp only [findings, List.forall_mem_cons, List.not_mem_nil, false_imp_iff, implies_true, and_true]
    at h
  obtain ⟨hproduction, harea, hlists, hanti, hhot⟩ := h
  rw [json?, finding?_of_parse? hproduction, finding?_of_parse? harea, finding?_of_parse? hlists,
    finding?_of_parse? hanti, finding?_of_parse? hhot]
  rfl

theorem Writable.json?_eq (h : s.Writable) : s.json? false = some s.tree :=
  Snapshot.json?_eq fun raw hraw => (h.isFinding raw hraw).parse?_eq

theorem Writable.fits (h : s.Writable) : Fits (findingDepth + 1) s.tree := by
  refine fits_record s.plainKeys_values fun v hv => ?_
  have hmem : v ∈ s.values := hv
  simp only [values, List.mem_cons, List.not_mem_nil, or_false] at hmem
  rcases hmem with rfl | rfl | rfl | rfl | rfl | rfl | rfl | rfl
  · exact fits_ofText _ false _
  · exact fits_ofText _ false _
  · exact h.production.fits
  · exact fits_number _ h.testLoc
  · exact h.surfaceArea.fits
  · exact h.surfaceAreaLists.fits
  · exact h.antipatterns.fits
  · exact h.hotspots.fits

/-- **A snapshot is read back from its layout.** -/
theorem Writable.decode_laidOut (h : s.Writable) : decode {} (laidOut 2 s.tree) = some s.reread := by
  have hfields := matching_laidOut apart_keys s.values rfl 3
  rw [decode, tree, decodeRecord_laidOut s.plainKeys_values]
  generalize mapValues (laidOut 3) (keys.zip s.values) = ms at hfields ⊢
  simp only [keys, values, List.map_cons, List.map_nil, List.cons.injEq, and_true, laidOut_ofText,
    laidOut_number] at hfields
  obtain ⟨hdate, hcommit, hproduction, htest, harea, hlists, hanti, hhot⟩ := hfields
  simp only [ofMembers, field_of_matching hdate, field_of_matching hcommit, field_of_matching htest,
    rawField_of_matching hproduction, rawField_of_matching harea, rawField_of_matching hlists,
    rawField_of_matching hanti, rawField_of_matching hhot, decodeText_ofText false h.date,
    decodeText_ofText false h.commit, decodeFloat_number h.testLoc, Option.bind_eq_bind,
    Option.bind_some, ← indented_eq]
  rfl

end Snapshot

/-! ### Counts and moving commits -/

namespace MonthCount

/-- The counts of a month can be written in a report. -/
structure Writable (m : MonthCount) : Prop where
  date : Utf8.valid m.date = true
  total : IsInt64 m.total
  features : IsInt64 m.features
  bugs : IsInt64 m.bugs
  maintenance : IsInt64 m.maintenance
  unknown : IsInt64 m.unknown

/-- The keys of a month. -/
def keys : List Text := ["date", "total", "features", "bugs", "maintenance", "unknown"]

theorem apart_keys : Apart keys := by decide +kernel

/-- The values of a month. -/
def values (m : MonthCount) : List Json :=
  [ofText false m.date, ofInt m.total, ofInt m.features, ofInt m.bugs, ofInt m.maintenance,
   ofInt m.unknown]

theorem plainKeys_values (m : MonthCount) : PlainKeys (keys.zip m.values) :=
  show ∀ key ∈ keys, Plain key by decide +kernel

theorem monthJson_eq (m : MonthCount) : Report.monthJson m = record (keys.zip m.values) := rfl

variable {m : MonthCount}

theorem fits (n : ℕ) (m : MonthCount) : Fits (n + 1) (Report.monthJson m) := by
  refine fits_record m.plainKeys_values fun v hv => ?_
  have hmem : v ∈ m.values := hv
  simp only [values, List.mem_cons, List.not_mem_nil, or_false] at hmem
  rcases hmem with rfl | rfl | rfl | rfl | rfl | rfl
  · exact fits_ofText n false _
  all_goals exact fits_ofInt n _

/-- The counts of a month are read back from their layout. -/
theorem Writable.decode_laidOut (h : m.Writable) (level : ℕ) :
    Report.decodeMonth {} (laidOut level (Report.monthJson m)) = some m := by
  have hfields := matching_laidOut apart_keys m.values rfl (level + 1)
  rw [Report.decodeMonth, monthJson_eq, decodeRecord_laidOut m.plainKeys_values]
  generalize mapValues (laidOut (level + 1)) (keys.zip m.values) = ms at hfields ⊢
  simp only [keys, values, List.map_cons, List.map_nil, List.cons.injEq, and_true, laidOut_ofText,
    laidOut_ofInt] at hfields
  obtain ⟨hdate, htotal, hfeatures, hbugs, hmaintenance, hunknown⟩ := hfields
  simp only [field_of_matching hdate, field_of_matching htotal, field_of_matching hfeatures,
    field_of_matching hbugs, field_of_matching hmaintenance, field_of_matching hunknown,
    decodeText_ofText false h.date, h.total.decodeInt, h.features.decodeInt, h.bugs.decodeInt,
    h.maintenance.decodeInt, h.unknown.decodeInt, Option.bind_eq_bind, Option.bind_some]

end MonthCount

namespace YearCount

/-- The count of a year can be written in a report. -/
structure Writable (y : YearCount) : Prop where
  year : IsInt64 y.year
  commits : IsInt64 y.commits

/-- The keys of a year. -/
def keys : List Text := ["year", "commits"]

theorem apart_keys : Apart keys := by decide +kernel

/-- The values of a year. -/
def values (y : YearCount) : List Json := [ofInt y.year, ofInt y.commits]

theorem plainKeys_values (y : YearCount) : PlainKeys (keys.zip y.values) :=
  show ∀ key ∈ keys, Plain key by decide +kernel

theorem yearJson_eq (y : YearCount) : Report.yearJson y = record (keys.zip y.values) := rfl

variable {y : YearCount}

theorem fits (n : ℕ) (y : YearCount) : Fits (n + 1) (Report.yearJson y) := by
  refine fits_record y.plainKeys_values fun v hv => ?_
  have hmem : v ∈ y.values := hv
  simp only [values, List.mem_cons, List.not_mem_nil, or_false] at hmem
  rcases hmem with rfl | rfl <;> exact fits_ofInt n _

/-- The count of a year is read back from its layout. -/
theorem Writable.decode_laidOut (h : y.Writable) (level : ℕ) :
    Report.decodeYear {} (laidOut level (Report.yearJson y)) = some y := by
  have hfields := matching_laidOut apart_keys y.values rfl (level + 1)
  rw [Report.decodeYear, yearJson_eq, decodeRecord_laidOut y.plainKeys_values]
  generalize mapValues (laidOut (level + 1)) (keys.zip y.values) = ms at hfields ⊢
  simp only [keys, values, List.map_cons, List.map_nil, List.cons.injEq, and_true, laidOut_ofInt]
    at hfields
  obtain ⟨hyear, hcommits⟩ := hfields
  simp only [field_of_matching hyear, field_of_matching hcommits, h.year.decodeInt,
    h.commits.decodeInt, Option.bind_eq_bind, Option.bind_some]

end YearCount

/-- The label of a category is that of the category it is read as. -/
theorem Category.label_ofLabel (l : Text) : (ofLabel l).label = l := by
  unfold ofLabel
  split
  · rename_i h
    exact h.symm
  split
  · rename_i h
    exact h.symm
  split
  · rename_i h
    exact h.symm
  split
  · rename_i h
    exact h.symm
  · rfl

namespace CommitDelta

/-- The commit can be written in a report. -/
structure Writable (d : CommitDelta) : Prop where
  hash : Utf8.valid d.hash = true
  date : Utf8.valid d.date = true
  label : Utf8.valid d.category.label = true
  message : Utf8.valid d.message = true
  loc : IsInt64 d.movement.loc
  ccn : Binary64.Finite d.movement.ccn
  mi : Binary64.Finite d.movement.mi
  antipatterns : IsInt64 d.movement.antipatterns

/-- Two entries are the same, with categories of the same label. -/
structure Same (d e : CommitDelta) : Prop where
  hash : e.hash = d.hash
  date : e.date = d.date
  label : e.category.label = d.category.label
  message : e.message = d.message
  movement : e.movement = d.movement

/-- The commit with the category that its label is read as. -/
def reread (d : CommitDelta) : CommitDelta := { d with category := .ofLabel d.category.label }

/-- The keys of a commit. -/
def keys : List Text :=
  ["hash", "date", "type", "message", "locDelta", "ccnDelta", "miDelta", "antipatternsDelta"]

theorem apart_keys : Apart keys := by decide +kernel

/-- The values of a commit. -/
def values (d : CommitDelta) : List Json :=
  [ofText false d.hash, ofText false d.date, ofText false d.category.label, ofText false d.message,
   ofInt d.movement.loc, Snapshot.number d.movement.ccn, Snapshot.number d.movement.mi,
   ofInt d.movement.antipatterns]

theorem plainKeys_values (d : CommitDelta) : PlainKeys (keys.zip d.values) :=
  show ∀ key ∈ keys, Plain key by decide +kernel

theorem deltaJson_eq (d : CommitDelta) : Report.deltaJson d = record (keys.zip d.values) := rfl

variable {d : CommitDelta}

theorem same_reread (d : CommitDelta) : d.Same d.reread :=
  ⟨rfl, rfl, Category.label_ofLabel _, rfl, rfl⟩

theorem Writable.reread (h : d.Writable) : d.reread.Writable where
  hash := h.hash
  date := h.date
  label := (congrArg Utf8.valid (Category.label_ofLabel _)).trans h.label
  message := h.message
  loc := h.loc
  ccn := h.ccn
  mi := h.mi
  antipatterns := h.antipatterns

theorem deltaJson_reread (d : CommitDelta) : Report.deltaJson d.reread = Report.deltaJson d := by
  have hvalues : d.reread.values = d.values := by
    simp only [values, CommitDelta.reread, Category.label_ofLabel]
  rw [deltaJson_eq, deltaJson_eq, hvalues]

theorem Writable.fits (h : d.Writable) (n : ℕ) : Fits (n + 1) (Report.deltaJson d) := by
  refine fits_record d.plainKeys_values fun v hv => ?_
  have hmem : v ∈ d.values := hv
  simp only [values, List.mem_cons, List.not_mem_nil, or_false] at hmem
  rcases hmem with rfl | rfl | rfl | rfl | rfl | rfl | rfl | rfl
  · exact fits_ofText n false _
  · exact fits_ofText n false _
  · exact fits_ofText n false _
  · exact fits_ofText n false _
  · exact fits_ofInt n _
  · exact fits_number n h.ccn
  · exact fits_number n h.mi
  · exact fits_ofInt n _

/-- A commit is read back from its layout, with the category that its label is read as. -/
theorem Writable.decode_laidOut (h : d.Writable) (level : ℕ) :
    Report.decodeDelta {} (laidOut level (Report.deltaJson d)) = some d.reread := by
  have hfields := matching_laidOut apart_keys d.values rfl (level + 1)
  rw [Report.decodeDelta, deltaJson_eq, decodeRecord_laidOut d.plainKeys_values]
  generalize mapValues (laidOut (level + 1)) (keys.zip d.values) = ms at hfields ⊢
  simp only [keys, values, List.map_cons, List.map_nil, List.cons.injEq, and_true, laidOut_ofText,
    laidOut_ofInt, laidOut_number] at hfields
  obtain ⟨hhash, hdate, htype, hmessage, hloc, hccn, hmi, hanti⟩ := hfields
  simp only [field_of_matching hhash, field_of_matching hdate, field_of_matching htype,
    field_of_matching hmessage, field_of_matching hloc, field_of_matching hccn,
    field_of_matching hmi, field_of_matching hanti, decodeText_ofText false h.hash,
    decodeText_ofText false h.date, decodeText_ofText false h.label,
    decodeText_ofText false h.message, h.loc.decodeInt, Snapshot.decodeFloat_number h.ccn,
    Snapshot.decodeFloat_number h.mi, h.antipatterns.decodeInt, Option.bind_eq_bind,
    Option.bind_some]
  rfl

end CommitDelta

/-! ### Reports -/

namespace Report

/-- The report can be written: its texts are characters, its numbers are numbers of the format, its
time has a notation and its findings are JSON values that are not too deep. -/
structure Writable (r : Report) : Prop where
  framework : Utf8.valid r.framework = true
  generated : r.generated.Writable
  commitsMonthly : ∀ m ∈ r.commitsMonthly, m.Writable
  snapshots : ∀ s ∈ r.snapshots, s.Writable
  commits : ∀ d ∈ r.commits, d.Writable
  commitsPerYear : ∀ y ∈ r.commitsPerYear, y.Writable

/-- Two reports are the same, up to the blank space in their findings. -/
structure Respaced (r back : Report) : Prop where
  framework : back.framework = r.framework
  generated : back.generated = r.generated
  commitsMonthly : back.commitsMonthly = r.commitsMonthly
  snapshots : List.Forall₂ Snapshot.Respaced r.snapshots back.snapshots
  commits : List.Forall₂ CommitDelta.Same r.commits back.commits
  commitsPerYear : back.commitsPerYear = r.commitsPerYear

/-- The report with its findings as they stand in its text. -/
def reread (r : Report) : Report :=
  { r with snapshots := r.snapshots.map Snapshot.reread, commits := r.commits.map CommitDelta.reread }

/-- The keys of a report. -/
def keys : List Text :=
  ["framework", "generated", "commitsMonthly", "snapshots", "commits", "commitsPerYear"]

theorem apart_keys : Apart keys := by decide +kernel

/-- The values of a report. -/
def values (r : Report) : List Json :=
  [ofText false r.framework, ofText false (r.generated.rfc3339 true),
   list (r.commitsMonthly.map monthJson), list (r.snapshots.map Snapshot.tree),
   list (r.commits.map deltaJson), list (r.commitsPerYear.map yearJson)]

theorem plainKeys_values (r : Report) : PlainKeys (keys.zip r.values) :=
  show ∀ key ∈ keys, Plain key by decide +kernel

/-- The tree of a report. -/
def tree (r : Report) : Json := record (keys.zip r.values)

variable {r : Report}

theorem Writable.respaced (h : r.Writable) : r.Respaced r.reread :=
  ⟨rfl, rfl, rfl,
    List.forall₂_map_right_iff.2 (List.forall₂_same.2 fun s hs => (h.snapshots s hs).respaced),
    List.forall₂_map_right_iff.2 (List.forall₂_same.2 fun d _ => d.same_reread), rfl⟩

theorem Writable.reread (h : r.Writable) : r.reread.Writable where
  framework := h.framework
  generated := h.generated
  commitsMonthly := h.commitsMonthly
  snapshots s hs := by
    obtain ⟨s', hs', rfl⟩ := List.mem_map.1 hs
    exact (h.snapshots s' hs').reread
  commits d hd := by
    obtain ⟨d', hd', rfl⟩ := List.mem_map.1 hd
    exact (h.commits d' hd').reread
  commitsPerYear := h.commitsPerYear

theorem Writable.fits (h : r.Writable) : Fits depthLimit r.tree := by
  have hdepth : depthLimit = findingDepth + 1 + 1 + 1 := by decide
  rw [hdepth]
  refine fits_record r.plainKeys_values fun v hv => ?_
  have hmem : v ∈ r.values := hv
  simp only [values, List.mem_cons, List.not_mem_nil, or_false] at hmem
  rcases hmem with rfl | rfl | rfl | rfl | rfl | rfl
  · exact fits_ofText _ false _
  · exact fits_ofText _ false _
  all_goals
    refine fits_list fun j hj => ?_
    obtain ⟨a, ha, rfl⟩ := List.mem_map.1 hj
  · exact a.fits _
  · exact (h.snapshots a ha).fits
  · exact (h.commits a ha).fits _
  · exact a.fits _

/-- **The text of a report that can be written.** -/
theorem Writable.encode?_eq (h : r.Writable) :
    r.encode? = some (r.tree.indented 0 ++ "\n") := by
  have hsnapshots : r.snapshots.mapM (Snapshot.json? false) = some (r.snapshots.map Snapshot.tree) := by
    have hall := h.snapshots
    generalize r.snapshots = ss at hall ⊢
    induction ss with
    | nil => rfl
    | cons s ss ih =>
      rw [List.mapM_cons, (hall s (by simp)).json?_eq, ih fun t ht => hall t (List.mem_cons_of_mem s ht)]
      rfl
  simp only [encode?, json?, hsnapshots, h.generated.isStrict, Option.bind_eq_bind, Option.bind_some]
  rfl

/-- **It is read back with the layout of its findings.** -/
theorem Writable.parse?_encode (h : r.Writable) :
    parse? (r.tree.indented 0 ++ "\n") = some r.reread := by
  have hline : Blank (Text.ofString "\n") :=
    show ∀ b ∈ Text.ofString "\n", Literal.isBlank b = true by decide +kernel
  have hfits := h.fits
  have hmonths : decodeList {} decodeMonth [] (laidOut 1 (list (r.commitsMonthly.map monthJson))) =
      some (r.commitsMonthly.map id) :=
    decodeList_laidOut 1 fun m hm => (h.commitsMonthly m hm).decode_laidOut 2
  have hseries : decodeList {} Snapshot.decode [] (laidOut 1 (list (r.snapshots.map Snapshot.tree))) =
      some (r.snapshots.map Snapshot.reread) :=
    decodeList_laidOut 1 fun s hs => (h.snapshots s hs).decode_laidOut
  have hdeltas : decodeList {} decodeDelta [] (laidOut 1 (list (r.commits.map deltaJson))) =
      some (r.commits.map CommitDelta.reread) :=
    decodeList_laidOut 1 fun d hd => (h.commits d hd).decode_laidOut 2
  have hcounts : decodeList {} decodeYear [] (laidOut 1 (list (r.commitsPerYear.map yearJson))) =
      some (r.commitsPerYear.map id) :=
    decodeList_laidOut 1 fun y hy => (h.commitsPerYear y hy).decode_laidOut 2
  rw [List.map_id] at hmonths hcounts
  have hfields := matching_laidOut apart_keys r.values rfl 1
  rw [parse?, parse?_indented hfits.spelled hfits.depth 0 hline, Option.bind_some, decode, tree,
    decodeRecord_laidOut r.plainKeys_values]
  generalize mapValues (laidOut (0 + 1)) (keys.zip r.values) = ms at hfields ⊢
  simp only [keys, values, List.map_cons, List.map_nil, List.cons.injEq, and_true, laidOut_ofText]
    at hfields
  obtain ⟨hframework, hgenerated, hmonthly, hsnapshots, hcommits, hyears⟩ := hfields
  simp only [field_of_matching hframework, field_of_matching hgenerated, field_of_matching hmonthly,
    field_of_matching hsnapshots, field_of_matching hcommits, field_of_matching hyears,
    decodeText_ofText false h.framework, decodeTime_ofText false h.generated, hmonths, hseries, hdeltas,
    hcounts, Option.bind_eq_bind, Option.bind_some]
  rfl

theorem Writable.stripped_tree_reread (h : r.Writable) :
    stripped r.reread.tree = stripped r.tree := by
  have hsnapshots : ((r.snapshots.map Snapshot.reread).map Snapshot.tree).map stripped =
      (r.snapshots.map Snapshot.tree).map stripped := by
    simp only [List.map_map]
    exact List.map_congr_left fun s hs => (h.snapshots s hs).stripped_tree_reread
  have hcommits : (r.commits.map CommitDelta.reread).map deltaJson = r.commits.map deltaJson := by
    rw [List.map_map]
    exact List.map_congr_left fun d _ => d.deltaJson_reread
  have hvalues : r.reread.values.map stripped = r.values.map stripped := by
    simp only [values, Report.reread, List.map_cons, List.map_nil, stripped_list, hsnapshots,
      hcommits]
  rw [tree, tree, stripped_zip, stripped_zip, hvalues]

/-- **Writing it again gives the same text.** -/
theorem Writable.encode?_reread (h : r.Writable) : r.reread.encode? = r.encode? := by
  rw [h.reread.encode?_eq, h.encode?_eq, indented_eq, indented_eq,
    laidOut_of_stripped_eq h.stripped_tree_reread]

end Report

end MetricHistory
