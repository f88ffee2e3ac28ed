import MetricHistory.Proofs.Commit.Delta
import MetricHistory.Proofs.Text.Order
import MetricHistory.Proofs.Text.Split

/-!
# The commits of each month

The histogram of the months is made of the lines `month NUL subject` of a log.

* `CommitLog.TellsOf` : what a line must be to count for a month and a category.
* `CommitLog.tally` counts one line in a table of buckets, and `CommitLog.Tallied` is what is known
  of the table: `CommitLog.Tallied.tally` is the step, `CommitLog.tallied_foldl` the whole log.
* `CommitLog.monthCounts_conserve` : **every line with a NUL byte is counted once, in the bucket of its
  month and category, whatever the order of the lines and of the table.**
-/

namespace MetricHistory

/-! ### Counting distinct values -/

theorem sum_count_eraseDups {α : Type} [hbeq : BEq α] [LawfulBEq α] (p : α → Bool) (l : List α) :
    ((l.eraseDups.filter p).map l.count).sum = l.countP p := by
  classical
  obtain rfl : hbeq = instBEqOfDecidableEq := lawful_beq_subsingleton _ _
  have hperm : l.eraseDups.Perm l.dedup := by
    rw [List.perm_ext_iff_of_nodup (nodup_eraseDups _) (List.nodup_dedup _)]
    intro a
    rw [List.mem_eraseDups, List.mem_dedup]
  rw [((hperm.filter p).map _).sum_eq, List.sum_map_count_dedup_filter_eq_countP]

theorem sum_count_eraseDups_length {α : Type} [BEq α] [LawfulBEq α] (l : List α) :
    (l.eraseDups.map l.count).sum = l.length := by
  have hsum := sum_count_eraseDups (fun _ => true) l
  rwa [List.filter_true, List.countP_true] at hsum

/-! ### One bucket -/

theorem Category.ofSubject_mem_all (subject : Text) : ofSubject subject ∈ all := by
  rw [ofSubject]
  dsimp only
  split
  · rename_i category words hfind
    have hmem : category ∈ openings.map (·.1) :=
      List.mem_map_of_mem (List.mem_of_find?_eq_some hfind)
    have hsub : ∀ c ∈ openings.map (·.1), c ∈ all := by decide
    exact hsub category hmem
  · decide

namespace MonthCount

/-- The commits of one category in a bucket. -/
def count (m : MonthCount) : Category → ℤ
  | .bug => m.bugs
  | .feature => m.features
  | .maintenance => m.maintenance
  | _ => m.unknown

@[simp] theorem date_add (m : MonthCount) (c : Category) : (m.add c).date = m.date := by
  cases c <;> rfl

@[simp] theorem total_add (m : MonthCount) (c : Category) : (m.add c).total = m.total + 1 := by
  cases c <;> rfl

theorem count_add {c d : Category} (hc : c ∈ Category.all) (hd : d ∈ Category.all) (m : MonthCount) :
    (m.add c).count d = m.count d + if c = d then 1 else 0 := by
  simp only [Category.all, List.mem_cons, List.not_mem_nil, or_false] at hc hd
  rcases hc with rfl | rfl | rfl | rfl <;> rcases hd with rfl | rfl | rfl | rfl <;>
    simp [add, count]

theorem add_add_comm (m : MonthCount) (c d : Category) : (m.add c).add d = (m.add d).add c := by
  cases c <;> cases d <;> rfl

/-- The total of a bucket is that of its categories. -/
def Balanced (m : MonthCount) : Prop := m.total = m.features + m.bugs + m.maintenance + m.unknown

theorem Balanced.add {m : MonthCount} (h : m.Balanced) (c : Category) : (m.add c).Balanced := by
  unfold Balanced at *
  cases c <;> simp only [MonthCount.add] <;> omega

end MonthCount

namespace CommitLog

/-- The months and categories of a log, line by line. -/
def monthEntries (log : Text) : List (Text × Category) := log.lines.filterMap monthEntry?

/-- The buckets of entries, ascending. -/
def buckets (es : List (Text × Category)) : List MonthCount :=
  (Text.sort (es.map (·.1)).eraseDups).map (monthCount es)

theorem monthCounts_eq (log : Text) : monthCounts log = buckets (monthEntries log) := rfl

theorem monthCount_concat (es : List (Text × Category)) (e : Text × Category) (month : Text) :
    monthCount (es ++ [e]) month =
      if e.1 = month then (monthCount es month).add e.2 else monthCount es month := by
  rw [monthCount, List.filter_append, List.foldl_append]
  split <;> rename_i h <;> simp [h, monthCount]

@[simp] theorem date_monthCount (es : List (Text × Category)) (month : Text) :
    (monthCount es month).date = month := by
  induction es using List.reverseRecOn with
  | nil => rfl
  | append_singleton es e ih =>
    rw [monthCount_concat]
    split
    · rw [MonthCount.date_add, ih]
    · exact ih

theorem total_monthCount (es : List (Text × Category)) (month : Text) :
    (monthCount es month).total = (es.map (·.1)).count month := by
  induction es using List.reverseRecOn with
  | nil => rfl
  | append_singleton es e ih =>
    rw [monthCount_concat, List.map_append, List.count_append, List.map_singleton,
      List.count_singleton]
    split <;> rename_i h <;> simp [h, ih]

theorem balanced_monthCount (es : List (Text × Category)) (month : Text) :
    (monthCount es month).Balanced := by
  induction es using List.reverseRecOn with
  | nil => rfl
  | append_singleton es e ih =>
    rw [monthCount_concat]
    split
    · exact ih.add e.2
    · exact ih

theorem count_monthCount {es : List (Text × Category)} (h : ∀ e ∈ es, e.2 ∈ Category.all)
    (month : Text) {c : Category} (hc : c ∈ Category.all) :
    (monthCount es month).count c = es.count (month, c) := by
  induction es using List.reverseRecOn with
  | nil =>
    simp only [Category.all, List.mem_cons, List.not_mem_nil, or_false] at hc
    rcases hc with rfl | rfl | rfl | rfl <;> rfl
  | append_singleton es e ih =>
    obtain ⟨hes, he⟩ := List.forall_mem_append.1 h
    rw [monthCount_concat, List.count_append, List.count_singleton]
    obtain ⟨month', c'⟩ := e
    have hc' : c' ∈ Category.all := he (month', c') (List.mem_singleton_self _)
    by_cases hmonth : month' = month
    · rw [if_pos hmonth, MonthCount.count_add hc' hc, ih hes]
      by_cases hcc : c' = c <;> simp [hmonth, hcc]
    · rw [if_neg hmonth, ih hes]
      simp [hmonth]

theorem monthCount_perm {es es' : List (Text × Category)} (h : es.Perm es') (month : Text) :
    monthCount es month = monthCount es' month :=
  (h.filter _).foldl_eq' (fun _ _ _ _ m => m.add_add_comm _ _) _

/-! ### The buckets together -/

theorem dates_buckets (es : List (Text × Category)) :
    (buckets es).map (·.date) = Text.sort (es.map (·.1)).eraseDups := by
  rw [buckets, List.map_map]
  simp [Function.comp_def]

theorem mem_buckets {es : List (Text × Category)} {m : MonthCount} :
    m ∈ buckets es ↔ ∃ month ∈ es.map (·.1), monthCount es month = m := by
  simp only [buckets, List.mem_map, Text.mem_sort, List.mem_eraseDups]

theorem pairwise_buckets (es : List (Text × Category)) :
    ((buckets es).map (·.date)).Pairwise (· < ·) := by
  rw [dates_buckets]
  exact Text.pairwise_sort (nodup_eraseDups _)

theorem sum_total_buckets (p : Text → Bool) (es : List (Text × Category)) :
    (((buckets es).filter fun m => p m.date).map (·.total)).sum = es.countP fun e => p e.1 := by
  have hsum := sum_count_eraseDups p (es.map (·.1))
  rw [← (((List.mergeSort_perm _ Text.le).filter p).map _).sum_eq, List.countP_map] at hsum
  have hfilter : (buckets es).filter (fun m => p m.date) =
      ((Text.sort (es.map (·.1)).eraseDups).filter p).map (monthCount es) := by
    rw [buckets, List.filter_map]
    simp only [Function.comp_def, date_monthCount]
  rw [hfilter, List.map_map]
  refine Eq.trans ?_ (congrArg Nat.cast hsum)
  rw [Nat.cast_list_sum, List.map_map]
  exact congrArg List.sum (List.map_congr_left fun month _ => total_monthCount es month)

/-- No entry is lost or counted twice. -/
theorem sum_total_all (es : List (Text × Category)) :
    ((buckets es).map (·.total)).sum = es.length := by
  simpa using sum_total_buckets (fun _ => true) es

theorem buckets_perm {es es' : List (Text × Category)} (h : es.Perm es') :
    buckets es = buckets es' := by
  have hmonths : Text.sort (es.map (·.1)).eraseDups = Text.sort (es'.map (·.1)).eraseDups :=
    Text.sort_eq_sort (nodup_eraseDups _) (nodup_eraseDups _) fun month => by
      rw [List.mem_eraseDups, List.mem_eraseDups, (h.map _).mem_iff]
  rw [buckets, buckets, hmonths]
  exact List.map_congr_left fun month _ => monthCount_perm h month

/-! ### One line after the other -/

/-- Counts an entry in the bucket of its month, a new one if the table has none. -/
def tally (table : List MonthCount) (e : Text × Category) : List MonthCount :=
  if e.1 ∈ table.map (·.date) then table.map fun m => if m.date = e.1 then m.add e.2 else m
  else table ++ [({ date := e.1 } : MonthCount).add e.2]

/-- The table has one bucket for each month of the entries, and it counts them. -/
structure Tallied (es : List (Text × Category)) (table : List MonthCount) : Prop where
  nodup : (table.map (·.date)).Nodup
  months : ∀ month, month ∈ table.map (·.date) ↔ month ∈ es.map (·.1)
  bucket : ∀ m ∈ table, monthCount es m.date = m

theorem monthCount_of_not_mem {es : List (Text × Category)} {month : Text}
    (h : month ∉ es.map (·.1)) : monthCount es month = { date := month } := by
  have hnone : es.filter (·.1 == month) = [] := by
    rw [List.filter_eq_nil_iff]
    intro e he hm
    exact h (List.mem_map.2 ⟨e, he, by simpa using hm⟩)
  rw [monthCount, hnone]
  rfl

theorem Tallied.tally {es : List (Text × Category)} {table : List MonthCount} (h : Tallied es table)
    (e : Text × Category) : Tallied (es ++ [e]) (tally table e) := by
  unfold CommitLog.tally
  split
  · rename_i hold
    -- the months of the table stay as they are
    have hdates : (table.map fun m => if m.date = e.1 then m.add e.2 else m).map (·.date) =
        table.map (·.date) := by
      rw [List.map_map]
      refine List.map_congr_left fun m _ => ?_
      simp only [Function.comp_apply]
      split <;> simp
    refine ⟨hdates ▸ h.nodup, fun month => ?_, fun m hm => ?_⟩
    · rw [hdates, h.months, List.map_append, List.mem_append, List.map_singleton, List.mem_singleton]
      refine ⟨.inl, fun hm => hm.elim id fun heq => ?_⟩
      rw [heq]
      exact (h.months e.1).1 hold
    · obtain ⟨m', hm', rfl⟩ := List.mem_map.1 hm
      rw [monthCount_concat]
      by_cases hdate : m'.date = e.1
      · rw [if_pos hdate, MonthCount.date_add, if_pos hdate.symm, h.bucket m' hm']
      · rw [if_neg hdate, if_neg (Ne.symm hdate), h.bucket m' hm']
  · -- the first commit of its month
    rename_i hnew
    refine ⟨?_, fun month => ?_, fun m hm => ?_⟩
    · rw [List.map_append, List.map_singleton, MonthCount.date_add, List.nodup_append]
      exact ⟨h.nodup, List.nodup_singleton _, fun a ha b hb => by
        rw [List.mem_singleton.1 hb]
        rintro rfl
        exact hnew ha⟩
    · simp only [List.map_append, List.map_singleton, MonthCount.date_add, List.mem_append,
        List.mem_singleton, h.months]
    · rw [monthCount_concat]
      rcases List.mem_append.1 hm with hm | hm
      · have hdate : e.1 ≠ m.date := by
          rintro heq
          exact hnew (heq ▸ List.mem_map_of_mem hm)
        rw [if_neg hdate, h.bucket m hm]
      · obtain rfl := List.mem_singleton.1 hm
        rw [MonthCount.date_add, if_pos rfl,
          monthCount_of_not_mem fun hmem => hnew ((h.months e.1).2 hmem)]

/-- A table that starts empty has counted all entries. -/
theorem tallied_foldl (es : List (Text × Category)) : Tallied es (es.foldl CommitLog.tally []) := by
  induction es using List.reverseRecOn with
  | nil => exact ⟨List.nodup_nil, by simp, by simp⟩
  | append_singleton es e ih =>
    rw [List.foldl_append]
    exact ih.tally e

theorem Tallied.perm {es : List (Text × Category)} {table table' : List MonthCount}
    (h : Tallied es table) (hp : table'.Perm table) : Tallied es table' where
  nodup := (hp.map _).nodup_iff.2 h.nodup
  months month := ((hp.map _).mem_iff).trans (h.months month)
  bucket m hm := h.bucket m (hp.subset hm)

/-- However the table is listed, sorting gives the buckets. -/
theorem Tallied.sorted {es : List (Text × Category)} {table : List MonthCount} (h : Tallied es table) :
    table.mergeSort (fun a b => a.date.le b.date) = buckets es := by
  have hdates : (table.mergeSort fun a b => a.date.le b.date).map (·.date) =
      Text.sort (es.map (·.1)).eraseDups := by
    rw [List.map_mergeSort (s := Text.le) fun _ _ _ _ => rfl]
    refine Text.sort_eq_sort h.nodup (nodup_eraseDups _) fun month => ?_
    rw [h.months, List.mem_eraseDups]
  rw [buckets, ← hdates, List.map_map]
  refine (List.map_id' _).symm.trans (List.map_congr_left fun m hm => ?_)
  exact (h.bucket m (List.mem_mergeSort.1 hm)).symm

/-! ### The lines of a log -/

/-- The line has a NUL byte, the month, trimmed, before the first one, and a subject of the category
behind it. -/
def TellsOf (month : Text) (c : Category) (line : Text) : Prop :=
  ∃ front subject : Text, line = front ++ 0 :: subject ∧ 0 ∉ front ∧ front.trim = month ∧
    Category.ofSubject subject = c

theorem monthEntry?_of_cut {front subject : Text} (h : 0 ∉ front) :
    monthEntry? (front ++ 0 :: subject) = some (front.trim, Category.ofSubject subject) := by
  unfold monthEntry?
  rw [Text.cut?_append h]
  rfl

theorem monthEntry?_eq_none_iff {line : Text} : monthEntry? line = none ↔ 0 ∉ line := by
  constructor
  · intro h hmem
    obtain ⟨front, subject, rfl, hfront⟩ := List.eq_append_cons_of_mem hmem
    simp [monthEntry?_of_cut hfront] at h
  · intro h
    unfold monthEntry?
    simp [Text.cut?_of_not_mem h]

theorem monthEntry?_eq_some_iff {line month : Text} {c : Category} :
    monthEntry? line = some (month, c) ↔ TellsOf month c line := by
  constructor
  · intro h
    have hmem : 0 ∈ line := by
      by_contra hnone
      simp [monthEntry?_eq_none_iff.2 hnone] at h
    obtain ⟨front, subject, rfl, hfront⟩ := List.eq_append_cons_of_mem hmem
    rw [monthEntry?_of_cut hfront, Option.some.injEq, Prod.mk.injEq] at h
    exact ⟨front, subject, rfl, hfront, h⟩
  · rintro ⟨front, subject, rfl, hfront, rfl, rfl⟩
    exact monthEntry?_of_cut hfront

instance (month : Text) (c : Category) : DecidablePred (TellsOf month c) := fun line =>
  decidable_of_iff _ (@monthEntry?_eq_some_iff line month c)

theorem count_monthEntries (log month : Text) (c : Category) :
    (monthEntries log).count (month, c) = log.lines.countP (TellsOf month c) := by
  rw [monthEntries, List.count_filterMap]
  refine List.countP_congr fun line _ => ?_
  rw [beq_iff_eq, decide_eq_true_eq, monthEntry?_eq_some_iff]

theorem length_monthEntries (log : Text) :
    (monthEntries log).length = log.lines.countP (0 ∈ ·) := by
  rw [monthEntries, List.length_filterMap_eq_countP]
  refine List.countP_congr fun line _ => ?_
  rw [Option.isSome_iff_ne_none, ne_eq, monthEntry?_eq_none_iff, not_not, decide_eq_true_eq]

theorem category_of_mem_monthEntries {log : Text} :
    ∀ e ∈ monthEntries log, e.2 ∈ Category.all := by
  intro e he
  obtain ⟨line, -, hline⟩ := List.mem_filterMap.1 he
  obtain ⟨-, subject, -, -, -, hc⟩ := monthEntry?_eq_some_iff.1 hline
  exact hc ▸ Category.ofSubject_mem_all subject

/-- **Every line with a NUL byte is counted once, in the bucket of its month and category.**  The
buckets ascend strictly, none of them is empty, and they do not depend on the order of the lines, nor
on the order in which a table of buckets that was filled line by line is listed. -/
theorem monthCounts_conserve (log : Text) :
    ((monthCounts log).map (·.date)).Pairwise (· < ·) ∧
      (∀ m ∈ monthCounts log,
        (∀ c ∈ Category.all, m.count c = log.lines.countP (TellsOf m.date c)) ∧
          m.total = m.features + m.bugs + m.maintenance + m.unknown ∧ 1 ≤ m.total) ∧
      ((monthCounts log).map (·.total)).sum = log.lines.countP (0 ∈ ·) ∧
      (∀ log', log'.lines.Perm log.lines → monthCounts log' = monthCounts log) ∧
      ∀ table : List MonthCount, table.Perm ((monthEntries log).foldl tally []) →
        table.mergeSort (fun a b => a.date.le b.date) = monthCounts log := by
  rw [monthCounts_eq]
  refine ⟨pairwise_buckets _, fun m hm => ?_, ?_, fun log' hp => ?_, fun table hp => ?_⟩
  · obtain ⟨month, hmonth, rfl⟩ := mem_buckets.1 hm
    refine ⟨fun c hc => ?_, balanced_monthCount _ _, ?_⟩
    · rw [count_monthCount category_of_mem_monthEntries _ hc, date_monthCount, count_monthEntries]
    · rw [total_monthCount]
      exact_mod_cast List.count_pos_iff.2 hmonth
  · rw [sum_total_all, length_monthEntries]
  · rw [monthCounts_eq]
    exact buckets_perm (hp.filterMap _)
  · exact ((tallied_foldl _).perm hp).sorted

/-- Lines of two months, one of them with a blank behind its month, and a line without a month. -/
def mingled : Text :=
  "2024-02\x00fix: a\n2024-01\x00[FEATURE] b\nbroken line\n2024-02 \x00chore: c\n2024-02\x00random"

/-- The same lines in another order. -/
def reordered : Text :=
  "broken line\n2024-01\x00[FEATURE] b\n2024-02\x00random\n2024-02 \x00chore: c\n2024-02\x00fix: a"

theorem monthCounts_conserve_mingled :
    reordered.lines.Perm mingled.lines ∧ monthCounts reordered = monthCounts mingled ∧
      (⟨"2024-02", 3, 0, 1, 1, 1⟩ : MonthCount) ∈ monthCounts mingled ∧
      mingled.lines.countP (TellsOf "2024-02" .maintenance) = (1 : ℤ) ∧
      ((monthEntries mingled).foldl tally []).reverse.mergeSort (fun a b => a.date.le b.date) =
        monthCounts mingled := by
  have hperm : reordered.lines.Perm mingled.lines := by decide
  have hmem : (⟨"2024-02", 3, 0, 1, 1, 1⟩ : MonthCount) ∈ monthCounts mingled := by
    have hcounts : monthCounts mingled = [⟨"2024-01", 1, 1, 0, 0, 0⟩, ⟨"2024-02", 3, 0, 1, 1, 1⟩] := by
      cbv
    rw [hcounts]
    simp
  obtain ⟨-, hbucket, -, horder, htable⟩ := monthCounts_conserve mingled
  exact ⟨hperm, horder reordered hperm, hmem, ((hbucket _ hmem).1 .maintenance (by decide)).symm,
    htable _ (List.reverse_perm _)⟩

end CommitLog

end MetricHistory
