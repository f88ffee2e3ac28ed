import MetricHistory.Proofs.Commit.MonthCounts
import MetricHistory.Proofs.Decimal.Magnitudes
import MetricHistory.Proofs.Decimal.Range
import MetricHistory.Proofs.Report.Codec
import MetricHistory.Report.Summary

/-!
# What a summary adds up

* `Json.foldl_insertMember` : members with distinct keys are kept in the order of the keys;
* `Summary.isBusiest_busiest` : the running maximum finds the first of the largest counts;
* `Summary.mem_countCategories` : every category that occurs is counted once;
* `Summary.alike_condensed` : the order of the recent commits does not matter;
* `Summary.aggregates_ofReport` : **the figures of a summary are those of its report**, as
  `Summary.Aggregates` lists them.
-/

namespace MetricHistory

/-! ### Members in order -/

namespace Json

variable {α : Type} {key : Text} {value : α} {members entries : List (Text × α)}

theorem insertMember_perm (h : key ∉ members.map (·.1)) :
    (insertMember key value members).Perm ((key, value) :: members) := by
  induction members with
  | nil => exact .refl _
  | cons m rest ih =>
    obtain ⟨k, v⟩ := m
    rw [List.map_cons, List.mem_cons, not_or] at h
    rw [insertMember, if_neg (Ne.symm h.1)]
    split
    · exact .refl _
    · exact ((ih h.2).cons _).trans (.swap ..)

theorem pairwise_insertMember (h : key ∉ members.map (·.1))
    (hsorted : members.Pairwise fun a b => a.1 < b.1) :
    (insertMember key value members).Pairwise fun a b => a.1 < b.1 := by
  induction members with
  | nil => exact List.pairwise_singleton _ _
  | cons m rest ih =>
    obtain ⟨k, v⟩ := m
    rw [List.map_cons, List.mem_cons, not_or] at h
    obtain ⟨hhead, hrest⟩ := List.pairwise_cons.1 hsorted
    rw [insertMember, if_neg (Ne.symm h.1)]
    split
    · rename_i hle
      have hlt : key < k := ((Text.le_iff_lt_or_eq _ _).1 hle).resolve_right h.1
      refine List.pairwise_cons.2 ⟨fun a ha => ?_, hsorted⟩
      rcases List.mem_cons.1 ha with rfl | ha
      · exact hlt
      · exact List.lt_trans hlt (hhead a ha)
    · rename_i hle
      have hlt : k < key := by
        rw [Text.le_iff_lt_or_eq, not_or] at hle
        exact ((Text.lt_or_eq_or_lt key k).resolve_left hle.1).resolve_left hle.2
      refine List.pairwise_cons.2 ⟨fun a ha => ?_, ih h.2 hrest⟩
      rcases List.mem_cons.1 ((insertMember_perm h.2).subset ha) with rfl | ha
      · exact hlt
      · exact hhead a ha

theorem foldl_insertMember_from (hsorted : members.Pairwise fun a b => a.1 < b.1)
    (h : ((entries ++ members).map (·.1)).Nodup) :
    ((entries.foldl (fun ms e => insertMember e.1 e.2 ms) members).Pairwise fun a b => a.1 < b.1) ∧
      (entries.foldl (fun ms e => insertMember e.1 e.2 ms) members).Perm (entries ++ members) := by
  induction entries generalizing members with
  | nil => exact ⟨hsorted, .refl _⟩
  | cons e rest ih =>
    rw [List.cons_append, List.map_cons, List.nodup_cons] at h
    have hnew : e.1 ∉ members.map (·.1) := by
      intro hmem
      refine h.1 ?_
      rw [List.map_append, List.mem_append]
      exact .inr hmem
    have hperm : (rest ++ insertMember e.1 e.2 members).Perm (e :: (rest ++ members)) :=
      ((insertMember_perm hnew).append_left rest).trans List.perm_middle
    have hdistinct : ((rest ++ insertMember e.1 e.2 members).map (·.1)).Nodup := by
      rw [(hperm.map _).nodup_iff, List.map_cons, List.nodup_cons]
      exact h
    obtain ⟨hsorted', hperm'⟩ := ih (pairwise_insertMember hnew hsorted) hdistinct
    exact ⟨hsorted', hperm'.trans hperm⟩

/-- Members with distinct keys are kept in the order of the keys. -/
theorem foldl_insertMember (h : (entries.map (·.1)).Nodup) :
    entries.foldl (fun ms e => insertMember e.1 e.2 ms) [] = Text.byKey entries := by
  obtain ⟨hsorted, hperm⟩ := foldl_insertMember_from .nil (by rwa [List.append_nil])
  rw [List.append_nil] at hperm
  exact Text.eq_of_perm_of_ascending hsorted (Text.pairwise_byKey h)
    (hperm.trans (Text.byKey_perm entries).symm)

end Json

namespace Summary

/-! ### The busiest year -/

/-- The first of the years with the largest positive count, or no year at all. -/
def IsBusiest (years : List YearCount) (best : YearCount) : Prop :=
  ((∀ y ∈ years, y.commits ≤ 0) ∧ best = {}) ∨
    (0 < best.commits ∧ ∃ before after, years = before ++ best :: after ∧
      (∀ y ∈ before, y.commits < best.commits) ∧ ∀ y ∈ after, y.commits ≤ best.commits)

variable {years : List YearCount} {best : YearCount}

theorem IsBusiest.nonneg (h : IsBusiest years best) : 0 ≤ best.commits := by
  rcases h with ⟨-, rfl⟩ | ⟨hpos, -⟩
  · exact le_rfl
  · exact hpos.le

theorem IsBusiest.le (h : IsBusiest years best) : ∀ y ∈ years, y.commits ≤ best.commits := by
  rcases h with ⟨hall, rfl⟩ | ⟨-, before, after, rfl, hbefore, hafter⟩
  · exact hall
  · intro y hy
    rcases List.mem_append.1 hy with hy | hy
    · exact (hbefore y hy).le
    · rcases List.mem_cons.1 hy with rfl | hy
      · exact le_rfl
      · exact hafter y hy

theorem IsBusiest.append (h : IsBusiest years best) (y : YearCount) :
    IsBusiest (years ++ [y]) (if y.commits > best.commits then y else best) := by
  split
  · rename_i hy
    exact .inr ⟨h.nonneg.trans_lt hy, years, [], rfl, fun z hz => (h.le z hz).trans_lt hy, by simp⟩
  · rename_i hy
    have hle : y.commits ≤ best.commits := not_lt.1 hy
    rcases h with ⟨hall, rfl⟩ | ⟨hpos, before, after, rfl, hbefore, hafter⟩
    · refine .inl ⟨fun z hz => ?_, rfl⟩
      rcases List.mem_append.1 hz with hz | hz
      · exact hall z hz
      · rwa [List.mem_singleton.1 hz]
    · refine .inr ⟨hpos, before, after ++ [y], by simp, hbefore, fun z hz => ?_⟩
      rcases List.mem_append.1 hz with hz | hz
      · exact hafter z hz
      · rwa [List.mem_singleton.1 hz]

/-- The running maximum finds the first of the largest counts. -/
theorem isBusiest_busiest (years : List YearCount) : IsBusiest years (busiest years) := by
  induction years using List.reverseRecOn with
  | nil => exact .inl ⟨by simp, rfl⟩
  | append_singleton years y ih =>
    rw [busiest, List.foldl_append]
    exact ih.append y

/-! ### Categories -/

variable {cs ds : List Category} {c : Category} {n : ℕ}

theorem keys_countCategories (cs : List Category) :
    (countCategories cs).map (·.1) = cs.eraseDups := by
  rw [countCategories, List.map_map]
  exact List.map_id _

theorem nodup_countCategories (cs : List Category) : ((countCategories cs).map (·.1)).Nodup := by
  rw [keys_countCategories]
  exact nodup_eraseDups cs

/-- Every category that occurs is counted once. -/
theorem mem_countCategories : (c, n) ∈ countCategories cs ↔ n = cs.count c ∧ 0 < n := by
  rw [countCategories, List.mem_map]
  constructor
  · rintro ⟨d, hd, hpair⟩
    obtain ⟨rfl, rfl⟩ := Prod.mk.inj hpair
    exact ⟨rfl, List.count_pos_iff.2 (List.mem_eraseDups.1 hd)⟩
  · rintro ⟨rfl, hpos⟩
    exact ⟨c, List.mem_eraseDups.2 (List.count_pos_iff.1 hpos), rfl⟩

theorem sum_countCategories (cs : List Category) :
    ((countCategories cs).map (·.2)).sum = cs.length := by
  rw [← sum_count_eraseDups_length cs, countCategories, List.map_map]
  rfl

theorem countCategories_perm (h : cs.Perm ds) : (countCategories cs).Perm (countCategories ds) := by
  rw [List.perm_ext_iff_of_nodup (nodup_countCategories cs).of_map
    (nodup_countCategories ds).of_map]
  rintro ⟨c, n⟩
  rw [mem_countCategories, mem_countCategories, h.count_eq]

theorem lookup_countCategories (cs : List Category) (c : Category) :
    ((countCategories cs).lookup c).getD 0 = cs.count c := by
  have hlookup := fun n => lookup_eq_some_iff_mem (nodup_countCategories cs) (a := c) (b := n)
  cases hfound : (countCategories cs).lookup c with
  | some n => exact (mem_countCategories.1 ((hlookup n).1 hfound)).1
  | none =>
    -- a category that occurs would be found
    by_contra hne
    have hmem : (c, cs.count c) ∈ countCategories cs :=
      mem_countCategories.2 ⟨rfl, Nat.pos_of_ne_zero (Ne.symm hne)⟩
    rw [← hlookup, hfound] at hmem
    cases hmem

theorem sum_count_all (h : ∀ c ∈ cs, c ∈ Category.all) :
    (Category.all.map cs.count).sum = cs.length := by
  induction cs with
  | nil => rfl
  | cons c cs ih =>
    obtain ⟨hc, hcs⟩ := List.forall_mem_cons.1 h
    have hone : (Category.all.map (c :: cs).count).sum = (Category.all.map cs.count).sum + 1 := by
      simp only [Category.all, List.mem_cons, List.not_mem_nil, or_false] at hc
      rcases hc with rfl | rfl | rfl | rfl <;> simp [Category.all, List.count_cons] <;> omega
    rw [hone, ih hcs, List.length_cons]

/-! ### Rows -/

theorem mapM_eq_ok_iff {α β ε : Type} {f : α → Except ε β} {xs : List α} {ys : List β} :
    xs.mapM f = .ok ys ↔ List.Forall₂ (fun x y => f x = .ok y) xs ys := by
  induction xs generalizing ys with
  | nil =>
    rw [List.mapM_nil, List.forall₂_nil_left_iff]
    constructor
    · rintro ⟨⟩
      rfl
    · rintro rfl
      rfl
  | cons x xs ih =>
    rw [List.mapM_cons]
    constructor
    · intro h
      cases hx : f x with
      | error e =>
        rw [hx] at h
        cases h
      | ok y =>
        cases hxs : xs.mapM f with
        | error e =>
          rw [hx, hxs] at h
          cases h
        | ok ys' =>
          rw [hx, hxs] at h
          cases h
          exact .cons hx (ih.1 hxs)
    · rintro (_ | ⟨hx, hxs⟩)
      rw [hx, ih.2 hxs]
      rfl

theorem row_eq_ok {snapshot : Snapshot} {line : SnapshotRow} (h : row snapshot = .ok line) :
    line.date = snapshot.date ∧ line.commit = snapshot.commit ∧ line.testLoc = snapshot.testLoc := by
  unfold row at h
  dsimp only at h
  split at h
  · cases h
  · cases h
    exact ⟨rfl, rfl, rfl⟩

/-- The summary of a report with the rows of its snapshots. -/
def condensed (r : Report) (rows : List SnapshotRow) : Summary where
  framework := r.framework
  generated := r.generated
  snapshots := rows
  locTrend := Trend.ofSeries (rows.map fun s => Binary64.ofInt s.loc)
  ccnTrend := Trend.ofSeries (rows.map (·.ccnSum))
  commitTypes := countCategories (r.commits.map (·.category))
  ccnDeltaP90 := (percentile? 0 ((r.commits.map fun c => c.movement.ccn.abs).mergeSort
    fun a b => decide (a ≤ b)) 90).getD 0
  totalCommits := wrap64 ((r.commitsPerYear.map (·.commits)).foldl (· + ·) 0)
  busiestYear := busiest r.commitsPerYear

theorem ofReport_eq (r : Report) : ofReport r = (r.snapshots.mapM row).map (condensed r) := by
  rw [ofReport]
  cases r.snapshots.mapM row <;> rfl

theorem ofReport_eq_ok_iff {r : Report} {s : Summary} :
    ofReport r = .ok s ↔ ∃ rows, r.snapshots.mapM row = .ok rows ∧ s = condensed r rows := by
  rw [ofReport_eq]
  cases r.snapshots.mapM row with
  | error e => simp [Except.map]
  | ok rows => simp [Except.map, eq_comm]

/-! ### The order of the commits -/

/-- Two summaries differ at most in the order in which the counts of the categories are listed. -/
def Alike (s t : Summary) : Prop :=
  s.commitTypes.Perm t.commitTypes ∧ t = { s with commitTypes := t.commitTypes }

/-- The order of the recent commits does not matter. -/
theorem alike_condensed {r : Report} {commits : List CommitDelta} (rows : List SnapshotRow)
    (hfin : ∀ d ∈ r.commits, Binary64.isFinite d.movement.ccn = true) (h : r.commits.Perm commits) :
    Alike (condensed r rows) (condensed { r with commits := commits } rows) := by
  -- the movements enter the summary sorted, and categories enter it counted
  have hmoves := Binary64.mergeSort_abs_eq (l := r.commits.map (·.movement.ccn))
    (m := commits.map (·.movement.ccn)) (by simpa using hfin) (h.map _)
  rw [List.map_map, List.map_map] at hmoves
  have hp90 : (condensed r rows).ccnDeltaP90 =
      (condensed { r with commits := commits } rows).ccnDeltaP90 :=
    congrArg (fun moves => (percentile? 0 moves 90).getD 0) hmoves
  rw [Alike, hp90]
  exact ⟨countCategories_perm (h.map _), rfl⟩

/-- The counts of the categories as members of a document. -/
def typeMembers (types : List (Category × ℕ)) : List (Text × Json) :=
  types.map fun e => (e.1.label, Json.ofInt e.2)

theorem foldl_types (types : List (Category × ℕ)) :
    types.foldl (fun ms (c, n) => Json.insertMember c.label (Json.ofInt n) ms) [] =
      (typeMembers types).foldl (fun ms e => Json.insertMember e.1 e.2 ms) [] := by
  rw [typeMembers, List.foldl_map]

theorem nodup_labels {types : List (Category × ℕ)} (hkeys : (types.map (·.1)).Nodup)
    (hlabels : ∀ e ∈ types, e.1 = .ofLabel e.1.label) :
    ((typeMembers types).map (·.1)).Nodup := by
  rw [typeMembers, List.map_map]
  refine hkeys.of_map.map_on fun e he f hf hlabel => ?_
  have hsame : e.1 = f.1 := by
    rw [hlabels e he, hlabels f hf]
    exact congrArg _ hlabel
  exact List.inj_on_of_nodup_map hkeys he hf hsame

theorem Alike.block_eq {s t : Summary} (h : Alike s t) (hkeys : (s.commitTypes.map (·.1)).Nodup)
    (hlabels : ∀ e ∈ s.commitTypes, e.1 = .ofLabel e.1.label) (now : Time) :
    t.block now = s.block now := by
  obtain ⟨hperm, ht⟩ := h
  have hkeys' : (t.commitTypes.map (·.1)).Nodup := (hperm.map _).nodup_iff.1 hkeys
  have hcount : t.count = s.count := funext fun c => by
    rw [count, count, (perm_iff_lookup hkeys hkeys').1 hperm]
  -- the table looks the counts up, and the document has them in the order of the labels
  have hmembers : t.commitTypes.foldl
        (fun ms (c, n) => Json.insertMember c.label (Json.ofInt n) ms) [] =
      s.commitTypes.foldl (fun ms (c, n) => Json.insertMember c.label (Json.ofInt n) ms) [] := by
    have hnodup := nodup_labels hkeys hlabels
    have hsame : (typeMembers s.commitTypes).Perm (typeMembers t.commitTypes) := hperm.map _
    have hnodup' := (hsame.map (·.1)).nodup_iff.1 hnodup
    rw [foldl_types, foldl_types, Json.foldl_insertMember hnodup, Json.foldl_insertMember hnodup',
      (Text.byKey_eq_iff hnodup hnodup').2 hsame]
  have htable : t.typeTable = s.typeTable := by
    rw [typeTable, typeTable, hcount]
  have hjson : t.json = s.json := by
    rw [json, json, hmembers, ht]
  rw [block, block, htable, hjson, ht]
  rfl

/-! ### The figures of a summary -/

theorem totalCommits_eq_iff (r : Report) (rows : List SnapshotRow) :
    (condensed r rows).totalCommits = (r.commitsPerYear.map (·.commits)).sum ↔
      minInt64 ≤ (r.commitsPerYear.map (·.commits)).sum ∧
        (r.commitsPerYear.map (·.commits)).sum ≤ maxInt64 := by
  rw [condensed, ← List.sum_eq_foldl]
  exact wrap64_eq_self_iff

/-- The table of the types when every commit is of one of the four. -/
theorem typeTable_condensed {r : Report} (rows : List SnapshotRow)
    (h : ∀ d ∈ r.commits, d.category ∈ Category.all) :
    (condensed r rows).typeTable =
      { title := "Recent commits with metric changes"
        headers := ["Type", "Commits"]
        rows := Category.all.map fun c =>
          [c.label, Human.comma ((r.commits.map (·.category)).count c)]
        footer := ["Total", Human.comma r.commits.length] } := by
  have hcount : (condensed r rows).count = (r.commits.map (·.category)).count :=
    funext (lookup_countCategories _)
  have hsum : (Category.all.map (r.commits.map (·.category)).count).sum = _ :=
    sum_count_all (by simpa using h)
  rw [typeTable, hcount, ← List.sum_eq_foldl, hsum, List.length_map]
  rfl

/-- The figures of a summary are those of its report. -/
structure Aggregates (r : Report) (s : Summary) : Prop where
  /-- Every snapshot has a row, in the order of the snapshots. -/
  rows : List.Forall₂ (fun snapshot line => row snapshot = .ok line ∧ line.date = snapshot.date ∧
    line.commit = snapshot.commit ∧ line.testLoc = snapshot.testLoc) r.snapshots s.snapshots
  /-- Every category that occurs is counted. -/
  counts : ∀ c n, (c, n) ∈ s.commitTypes ↔ n = (r.commits.map (·.category)).count c ∧ 0 < n
  /-- The counts add up to the number of commits. -/
  sum_counts : (s.commitTypes.map (·.2)).sum = r.commits.length
  /-- The total is the sum of the years, if that is an integer of 64 bits. -/
  total : s.totalCommits = (r.commitsPerYear.map (·.commits)).sum ↔
    minInt64 ≤ (r.commitsPerYear.map (·.commits)).sum ∧
      (r.commitsPerYear.map (·.commits)).sum ≤ maxInt64
  /-- The busiest year is the first with the largest positive count. -/
  busiest : IsBusiest r.commitsPerYear s.busiestYear
  /-- The commits in another order have the same summary, and it looks the same if their categories
  are spelled as they are read. -/
  order : ∀ commits, r.commits.Perm commits →
    ∃ t, ofReport { r with commits := commits } = .ok t ∧ Alike s t ∧
      ((∀ d ∈ r.commits, d.category = .ofLabel d.category.label) →
        ∀ now, t.block now = s.block now)
  /-- The table shows the counts of the four categories and the number of commits, if no commit is
  of another category. -/
  table : (∀ d ∈ r.commits, d.category ∈ Category.all) → ∀ now, ∃ overview snapshots document,
    s.block now = .report (r.framework ++ " metrics")
      [overview, snapshots, .table {
        title := "Recent commits with metric changes"
        headers := ["Type", "Commits"]
        rows := Category.all.map fun c =>
          [c.label, Human.comma ((r.commits.map (·.category)).count c)]
        footer := ["Total", Human.comma r.commits.length] }] document

/-- **The figures of a summary are those of its report.** -/
theorem aggregates_ofReport {r : Report} {s : Summary}
    (hfin : ∀ d ∈ r.commits, Binary64.isFinite d.movement.ccn = true) (h : ofReport r = .ok s) :
    Aggregates r s := by
  obtain ⟨rows, hrows, rfl⟩ := ofReport_eq_ok_iff.1 h
  exact {
    rows := (mapM_eq_ok_iff.1 hrows).imp fun _ _ hrow => ⟨hrow, row_eq_ok hrow⟩
    counts := fun c n => mem_countCategories
    sum_counts := (sum_countCategories _).trans (List.length_map _)
    total := totalCommits_eq_iff r rows
    busiest := isBusiest_busiest _
    order := fun commits hperm => by
      have halike := alike_condensed rows hfin hperm
      refine ⟨_, ofReport_eq_ok_iff.2 ⟨rows, hrows, rfl⟩, halike, fun hlabels now => ?_⟩
      refine halike.block_eq (nodup_countCategories _) (fun e he => ?_) now
      obtain ⟨hn, hpos⟩ := mem_countCategories.1 (show (e.1, e.2) ∈ _ from he)
      rw [hn, List.count_pos_iff, List.mem_map] at hpos
      obtain ⟨d, hd, hcategory⟩ := hpos
      rw [← hcategory]
      exact hlabels d hd
    table := fun hall now => by
      rw [block, typeTable_condensed rows hall]
      exact ⟨_, _, _, rfl⟩ }

/-- A report with two busiest years, with commits that moved a metric as far up as down, and with a
snapshot that has no figures. -/
def tiedReport : Report where
  framework := "drupal"
  snapshots := [{ date := "2023" }, { date := "2024", production := "\x7b\x22loc\x22:1200\x7d" }]
  commits := [{ category := .bug, movement := { ccn := -1.5 } }, { category := .unknown },
    { category := .bug, movement := { ccn := 1.5 } }]
  commitsPerYear := [⟨2022, 5⟩, ⟨2023, 9⟩, ⟨2024, 9⟩]

/-- The rows of the two snapshots. -/
def tiedRows : List SnapshotRow :=
  [{ date := "2023", commit := [], loc := 0, ccnSum := 0, miDebtSum := 0, testLoc := 0 },
   { date := "2024", commit := [], loc := 1200, ccnSum := 0, miDebtSum := 0, testLoc := 0 }]

/-- Of two busiest years the first counts. -/
theorem aggregates_ofReport_tied :
    (∀ d ∈ tiedReport.commits, Binary64.isFinite d.movement.ccn = true) ∧
      ofReport tiedReport = .ok (condensed tiedReport tiedRows) ∧
        Aggregates tiedReport (condensed tiedReport tiedRows) ∧
          (condensed tiedReport tiedRows).commitTypes = [(.bug, 2), (.unknown, 1)] ∧
            (condensed tiedReport tiedRows).busiestYear = ⟨2023, 9⟩ := by
  have hfin : ∀ d ∈ tiedReport.commits, Binary64.isFinite d.movement.ccn = true := by
    decide +kernel
  have hrows : tiedReport.snapshots.mapM row = .ok tiedRows := by
    refine mapM_eq_ok_iff.2 (.cons rfl (.cons ?_ .nil))
    cbv
  have hsummary := ofReport_eq_ok_iff.2 ⟨tiedRows, hrows, rfl⟩
  exact ⟨hfin, hsummary, aggregates_ofReport hfin hsummary, by decide, by decide⟩

end Summary

end MetricHistory
