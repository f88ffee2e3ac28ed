import MetricHistory.Git.Log
import MetricHistory.Proofs.Calendar.Months
import MetricHistory.Proofs.Commit.MonthCounts
import MetricHistory.Proofs.Json.Fields

/-!
# The commits of each year

The histogram of the years is read from a text of its own, with one year on a line.

* `CommitLog.mem_yearCounts` and `CommitLog.sum_commits` : each line with a year is counted once.
* `CommitLog.Authored` is what the two texts tell of a commit.
* `CommitLog.yearCounts_agree` : **both histograms of a history have the same years, and the months
  of a year add up to that year.**
* `CommitLog.exists_authored` : the texts of a repository tell of such a history.
-/

namespace MetricHistory

/-! ### Plain texts -/

namespace Text

theorem trim_notation {t : Text} (h : ∀ b ∈ t, b ∈ notationBytes) : trim t = t := by
  have hbytes : ∀ b ∈ notationBytes, Utf8.encode (Char.ofNat b.toNat) = [b] ∧
      isBlank (Char.ofNat b.toNat) = false := by decide +kernel
  have hchars : t = Utf8.ofChars (t.map fun b => Char.ofNat b.toNat) := by
    rw [Utf8.ofChars, List.flatMap_map]
    calc t = t.flatMap fun b => [b] := by simp
      _ = _ := List.flatMap_congr fun b hb => (hbytes b (h b hb)).1.symm
  have hkeep : ∀ ps : List Utf8.Piece, (∀ p ∈ ps, ∃ b ∈ t, p = .char (Char.ofNat b.toNat)) →
      ps.dropWhile blankPiece = ps := by
    intro ps hps
    cases ps with
    | nil => rfl
    | cons p ps =>
      obtain ⟨b, hb, rfl⟩ := hps p (by simp)
      rw [List.dropWhile_cons_of_neg (by simp [blankPiece, (hbytes b (h b hb)).2])]
  have hpieces : ∀ p ∈ Utf8.pieces t, ∃ b ∈ t, p = .char (Char.ofNat b.toNat) := by
    rw [hchars, Utf8.pieces_ofChars, ← hchars, List.map_map]
    intro p hp
    obtain ⟨b, hb, rfl⟩ := List.mem_map.1 hp
    exact ⟨b, hb, rfl⟩
  rw [trim, hkeep _ hpieces, hkeep _ fun p hp => hpieces p (List.mem_reverse.1 hp),
    List.reverse_reverse, Utf8.ofPieces_pieces]

theorem int?_of_digits {ds : Text} (hd : Literal.Digits ds) (hne : ds ≠ []) :
    int? ds = some (numeral ds : ℤ) := by
  obtain ⟨b, r, rfl⟩ := List.exists_cons_of_ne_nil hne
  have hb := hd b (by simp)
  have hminus : b ≠ byte '-' := by
    rintro rfl
    exact absurd hb (by decide)
  have hplus : b ≠ byte '+' := by
    rintro rfl
    exact absurd hb (by decide)
  rw [int?, if_neg hminus, if_neg hplus, nat?_of_digits hd hne]
  rfl

/-- Lines, each with its end. -/
def ofLines (ls : List Text) : Text := ls.flatMap (· ++ [10])

theorem lines_ofLines {ls : List Text} (h : ∀ l ∈ ls, 10 ∉ l) : (ofLines ls).lines = ls ++ [[]] := by
  induction ls with
  | nil => rfl
  | cons l ls ih =>
    obtain ⟨hl, hls⟩ := List.forall_mem_cons.1 h
    rw [ofLines, List.flatMap_cons, lines, List.append_assoc, List.singleton_append,
      splitOn_append_sep, splitOn_of_not_mem hl]
    exact congrArg (l :: ·) (ih hls)

theorem ofNat_eq_ofNatPadded {n w : ℕ} (h : 10 ^ w ≤ n) : ofNat n = ofNatPadded (w + 1) n := by
  have hlength : w < (ofNat n).length := by
    have hlt := numeral_lt (digits_ofNat n)
    rw [numeral_ofNat] at hlt
    exact (Nat.pow_lt_pow_iff_right (by norm_num)).1 (h.trans_lt hlt)
  rw [ofNatPadded, show w + 1 - (ofNat n).length = 0 by omega]
  rfl

end Text

theorem Git.newline_not_mem_subject (message : Text) : 10 ∉ subject message := by
  intro h
  rcases Text.mem_join h with h | ⟨line, hline, h⟩
  · exact absurd h (by decide)
  · have hmem := (List.dropWhile_sublist _).subset ((List.takeWhile_sublist _).subset hline)
    obtain ⟨whole, hwhole, rfl⟩ := List.mem_map.1 hmem
    refine Text.not_mem_of_mem_splitOn hwhole ?_
    rw [trimEnd, List.mem_reverse] at h
    exact List.mem_reverse.1 ((List.dropWhile_sublist _).subset h)

namespace CommitLog

/-! ### The histogram of the years -/

/-- The years of a log, line by line. -/
def yearEntries (log : Text) : List ℤ := log.lines.filterMap year?

theorem mem_yearCounts {log : Text} {n : YearCount} :
    n ∈ yearCounts log ↔ n.year ∈ yearEntries log ∧ n.commits = (yearEntries log).count n.year := by
  rw [yearCounts, List.mem_map]
  constructor
  · rintro ⟨y, hy, rfl⟩
    exact ⟨List.mem_eraseDups.1 (List.mem_mergeSort.1 hy), rfl⟩
  · rintro ⟨hy, hn⟩
    exact ⟨n.year, List.mem_mergeSort.2 (List.mem_eraseDups.2 hy),
      congrArg (YearCount.mk n.year) hn.symm⟩

theorem years_yearCounts (log : Text) :
    (yearCounts log).map (·.year) = (yearEntries log).eraseDups.mergeSort (· ≤ ·) := by
  rw [yearCounts, List.map_map]
  exact List.map_id _

theorem pairwise_yearCounts (log : Text) : ((yearCounts log).map (·.year)).Pairwise (· < ·) := by
  rw [years_yearCounts]
  have hle : ∀ a b : ℤ, decide (a ≤ b) = true ↔ a < b ∨ a = b := fun a b => by
    rw [decide_eq_true_eq, le_iff_lt_or_eq]
  exact pairwise_mergeSort_of_nodup hle lt_trans lt_trichotomy (nodup_eraseDups _)

/-- Each line with a year is counted once. -/
theorem sum_commits (log : Text) :
    ((yearCounts log).map (·.commits)).sum = (yearEntries log).length := by
  have hsum := sum_count_eraseDups_length (yearEntries log)
  rw [← ((List.mergeSort_perm _ _).map _).sum_eq] at hsum
  rw [← hsum, Nat.cast_list_sum, yearCounts, List.map_map, List.map_map]
  rfl

/-! ### A history and its two texts -/

/-- A commit as the histograms are told of it. -/
structure Authored where
  year : ℕ
  month : ℕ
  subject : Text
  year_lt : year < 10000
  oneLine : 10 ∉ subject

namespace Authored

/-- The year in four digits. -/
def yearText (c : Authored) : Text := Text.ofNatPadded 4 c.year

/-- Year and month. -/
def label (c : Authored) : Text := c.yearText ++ "-" ++ Text.ofNatPadded 2 c.month

/-- Year, month and subject. -/
def monthText (c : Authored) : Text := c.label ++ 0 :: c.subject

theorem mem_yearText {c : Authored} {b : UInt8} (h : b ∈ c.yearText) : b ∈ Text.notationBytes :=
  Time.mem_ofNatPadded h

theorem mem_label {c : Authored} {b : UInt8} (h : b ∈ c.label) : b ∈ Text.notationBytes := by
  rcases List.mem_append.1 h with h | h
  · rcases List.mem_append.1 h with h | h
    · exact mem_yearText h
    · exact (show ∀ b ∈ Text.ofString "-", b ∈ Text.notationBytes by decide +kernel) b h
  · exact Time.mem_ofNatPadded h

theorem int?_yearText (c : Authored) : Text.int? c.yearText = some (c.year : ℤ) := by
  obtain ⟨hdigits, hlength, hnumeral⟩ := Text.ofNatPadded_facts (w := 4) c.year_lt (by norm_num)
  have hne : Text.ofNatPadded 4 c.year ≠ [] := by
    rw [← List.length_pos_iff, hlength]
    norm_num
  rw [yearText, Text.int?_of_digits hdigits hne, hnumeral]

theorem take_label (c : Authored) : c.label.take 4 = c.yearText := by
  have hlength := (Text.ofNatPadded_facts (w := 4) c.year_lt (by norm_num)).2.1
  rw [label, List.append_assoc]
  exact List.take_left' hlength

theorem year?_yearText (c : Authored) : year? c.yearText = some (c.year : ℤ) := by
  have hlt := c.year_lt
  rw [year?, Text.trim_notation fun b hb => mem_yearText hb, int?_yearText]
  simp only [Option.bind_eq_bind, Option.bind_some]
  rw [if_pos ⟨by simp only [minInt64]; omega, by simp only [maxInt64]; omega⟩]

theorem monthEntry?_monthText (c : Authored) :
    monthEntry? c.monthText = some (c.label, Category.ofSubject c.subject) := by
  have hlabel : 0 ∉ c.label := fun h => absurd (mem_label h) (by decide)
  rw [monthText, monthEntry?_of_cut hlabel, Text.trim_notation fun b hb => mem_label hb]

end Authored

variable (cs : List Authored)

/-- The years of a history, one on a line. -/
def yearsText : Text := Text.ofLines (cs.map Authored.yearText)

/-- The months and subjects of a history, one on a line. -/
def monthsText : Text := Text.ofLines (cs.map Authored.monthText)

theorem yearEntries_yearsText : yearEntries (yearsText cs) = cs.map fun c => (c.year : ℤ) := by
  have hlines : ∀ l ∈ cs.map Authored.yearText, 10 ∉ l := by
    rw [List.forall_mem_map]
    exact fun c _ h => absurd (Authored.mem_yearText h) (by decide)
  have hend : year? [] = none := by simp [year?, Text.trim, Utf8.ofPieces, Text.int?]
  rw [yearEntries, yearsText, Text.lines_ofLines hlines, List.filterMap_append, List.filterMap_map,
    List.filterMap_cons_none hend, List.filterMap_nil, List.append_nil]
  simp only [Function.comp_def, Authored.year?_yearText, List.filterMap_eq_map']

theorem monthEntries_monthsText :
    monthEntries (monthsText cs) = cs.map fun c => (c.label, Category.ofSubject c.subject) := by
  have hlines : ∀ l ∈ cs.map Authored.monthText, 10 ∉ l := by
    rw [List.forall_mem_map]
    intro c _ h
    rcases List.mem_append.1 h with h | h
    · exact absurd (Authored.mem_label h) (by decide)
    · exact (List.mem_cons.1 h).elim (by decide) c.oneLine
  have hend : monthEntry? [] = none := rfl
  rw [monthEntries, monthsText, Text.lines_ofLines hlines, List.filterMap_append, List.filterMap_map,
    List.filterMap_cons_none hend, List.filterMap_nil, List.append_nil]
  simp only [Function.comp_def, Authored.monthEntry?_monthText, List.filterMap_eq_map']

/-- The year that the label of a month begins with. -/
def labelYear? (month : Text) : Option ℤ := Text.int? (month.take 4)

theorem labelYear?_label (c : Authored) : labelYear? c.label = some (c.year : ℤ) := by
  rw [labelYear?, c.take_label, c.int?_yearText]

/-- **Both histograms of a history have the same years, the months of a year add up to that year, and
both count all commits.**  Each of them ascends strictly. -/
theorem yearCounts_agree :
    (∀ y, y ∈ (yearCounts (yearsText cs)).map (·.year) ↔
        ∃ m ∈ monthCounts (monthsText cs), labelYear? m.date = some y) ∧
      (∀ n ∈ yearCounts (yearsText cs),
        n.commits = (((monthCounts (monthsText cs)).filter fun m =>
          labelYear? m.date = some n.year).map (·.total)).sum) ∧
      ((yearCounts (yearsText cs)).map (·.commits)).sum = cs.length ∧
      ((monthCounts (monthsText cs)).map (·.total)).sum = cs.length ∧
      ((yearCounts (yearsText cs)).map (·.year)).Pairwise (· < ·) ∧
      ((monthCounts (monthsText cs)).map (·.date)).Pairwise (· < ·) := by
  refine ⟨fun y => ?_, fun n hn => ?_, ?_, ?_, pairwise_yearCounts _, pairwise_buckets _⟩
  · rw [years_yearCounts, List.mem_mergeSort, List.mem_eraseDups, yearEntries_yearsText, List.mem_map]
    simp only [monthCounts_eq, mem_buckets, monthEntries_monthsText, List.map_map, List.mem_map,
      Function.comp_apply]
    constructor
    · rintro ⟨c, hc, rfl⟩
      exact ⟨_, ⟨c.label, ⟨c, hc, rfl⟩, rfl⟩, by rw [date_monthCount, labelYear?_label]⟩
    · rintro ⟨m, ⟨month, ⟨c, hc, rfl⟩, rfl⟩, hy⟩
      rw [date_monthCount, labelYear?_label, Option.some.injEq] at hy
      exact ⟨c, hc, hy⟩
  · rw [(mem_yearCounts.1 hn).2, yearEntries_yearsText, monthCounts_eq,
      sum_total_buckets fun month => labelYear? month = some n.year, monthEntries_monthsText,
      List.countP_map, List.count, List.countP_map]
    refine congrArg Nat.cast (List.countP_congr fun c _ => ?_)
    simp [labelYear?_label]
  · rw [sum_commits, yearEntries_yearsText, List.length_map]
  · rw [monthCounts_eq, sum_total_all, monthEntries_monthsText, List.length_map]

/-- Two commits of a year, one with a NUL byte in its subject, and one of a year long ago. -/
def scattered : List Authored :=
  [⟨2024, 2, "fix: a\x00b", by decide, by decide⟩, ⟨987, 12, "feat: c", by decide, by decide⟩,
    ⟨2024, 11, "", by decide, by decide⟩]

theorem yearCounts_agree_scattered :
    (⟨2024, 2⟩ : YearCount) ∈ yearCounts (yearsText scattered) ∧
      (((monthCounts (monthsText scattered)).filter fun m =>
        labelYear? m.date = some 2024).map (·.total)).sum = 2 ∧
      ∃ m ∈ monthCounts (monthsText scattered), labelYear? m.date = some 987 := by
  have hyears : yearEntries (yearsText scattered) = [2024, 987, 2024] := yearEntries_yearsText scattered
  have hmem : (⟨2024, 2⟩ : YearCount) ∈ yearCounts (yearsText scattered) := by
    rw [mem_yearCounts, hyears]
    decide
  have hold : 987 ∈ (yearCounts (yearsText scattered)).map (·.year) := by
    rw [years_yearCounts, List.mem_mergeSort, List.mem_eraseDups, hyears]
    decide
  obtain ⟨hsame, hsum, -⟩ := yearCounts_agree scattered
  exact ⟨hmem, (hsum _ hmem).symm, (hsame 987).1 hold⟩

/-! ### The texts of a repository -/

/-- What a repository tells of its revisions, as long as their years have four digits. -/
theorem exists_authored {rs : List Git.Revision}
    (h : ∀ r ∈ rs, 1000 ≤ r.authored.date.year ∧ r.authored.date.year ≤ 9999) :
    ∃ cs : List Authored, cs.map (fun c => (c.year : ℤ)) = rs.map (·.authored.date.year) ∧
      Git.yearLog rs = yearsText cs ∧ Git.monthLog rs = monthsText cs := by
  induction rs with
  | nil => exact ⟨[], rfl, rfl, rfl⟩
  | cons r rs ih =>
    obtain ⟨⟨hlow, hhigh⟩, hrs⟩ := List.forall_mem_cons.1 h
    obtain ⟨cs, hyears, hyearLog, hmonthLog⟩ := ih hrs
    obtain ⟨y, hy⟩ := Int.eq_ofNat_of_zero_le (show 0 ≤ r.authored.date.year by omega)
    have hdigits : Text.ofNat y = Text.ofNatPadded 4 y :=
      Text.ofNat_eq_ofNatPadded (w := 3) (by omega)
    let c : Authored := ⟨y, r.authored.date.month, Git.subject r.message, by omega,
      Git.newline_not_mem_subject r.message⟩
    have hyear : Text.ofInt r.authored.date.year = c.yearText := by
      rw [Text.ofInt, if_neg (by omega), hy, Int.natAbs_natCast, hdigits]
      rfl
    have hlabel : r.authored.date.yearMonth = c.label := by
      rw [Date.yearMonth, Date.padded, if_neg (by omega), hy, Int.natAbs_natCast]
      rfl
    refine ⟨c :: cs, ?_, ?_, ?_⟩
    · rw [List.map_cons, List.map_cons, hyears, hy]
    · rw [Git.yearLog, List.flatMap_cons, ← Git.yearLog, hyearLog, hyear]
      rfl
    · rw [Git.monthLog, List.flatMap_cons, ← Git.monthLog, hmonthLog, hlabel, Text.join_cons_cons]
      simp [monthsText, Text.ofLines, Authored.monthText, Text.join, c]

end CommitLog

end MetricHistory
