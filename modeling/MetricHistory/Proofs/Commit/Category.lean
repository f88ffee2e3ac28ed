import MetricHistory.Commit.Category
import MetricHistory.Proofs.Text.Blank

/-!
# How subjects begin

The openings of the categories are such that no opening starts with another one, and none starts or
ends with white space.  So a subject can have one opening only, and nothing else in the subject
matters.

* `Category.Lists` says which openings a table has, in whatever order, and `Category.Begins` that a
  text begins with an opening of a category;
* `Category.within_eq_iff` : a table without ambiguity gives the category that has an opening;
* `Category.ofSubject_begins` : **the category of a subject is the one with an opening that the
  subject begins with, which neither the order of the table, nor what follows, nor white space
  around the subject, nor the case of its letters can change.**
-/

namespace MetricHistory

namespace Category

open Text Utf8

variable {table : List (Category × List String)} {c c' : Category} {word : String} {subject : Text}

/-! ### Tables of openings -/

/-- The category that a table of openings gives to a subject. -/
def within (table : List (Category × List String)) (subject : Text) : Category :=
  match table.find? fun (_, words) => words.any fun w => subject.trim.lower.startsWith w with
  | some (category, _) => category
  | none => unknown

/-- The table has an opening for a category. -/
def Lists (table : List (Category × List String)) (c : Category) (word : String) : Prop :=
  ∃ words, (c, words) ∈ table ∧ word ∈ words

/-- The small letters of the trimmed subject start with an opening of a category. -/
def Matches (table : List (Category × List String)) (c : Category) (subject : Text) : Prop :=
  ∃ word, Lists table c word ∧ subject.trim.lower.startsWith word = true

theorem within_eq_some_iff {g : Category × List String}
    (h : (table.find? fun (_, words) => words.any fun w => subject.trim.lower.startsWith w) = some g) :
    Matches table g.1 subject := by
  have hword := List.find?_some h
  obtain ⟨word, hmem, hstarts⟩ := List.any_eq_true.1 hword
  exact ⟨word, ⟨g.2, List.mem_of_find?_eq_some h, hmem⟩, hstarts⟩

/-- Where no two categories have an opening of the subject, the table gives the one that has. -/
theorem within_eq_iff (hunique : ∀ c c', Matches table c subject → Matches table c' subject → c = c')
    (hc : c ≠ unknown) : within table subject = c ↔ Matches table c subject := by
  unfold within
  split
  · rename_i category words hfind
    have hmatches : Matches table category subject := within_eq_some_iff hfind
    exact ⟨fun h => h ▸ hmatches, hunique _ _ hmatches⟩
  · rename_i hnone
    refine ⟨fun h => absurd h.symm hc, ?_⟩
    rintro ⟨word, ⟨words, hwords, hword⟩, hstarts⟩
    exact absurd (List.any_eq_true.2 ⟨word, hword, hstarts⟩)
      (List.find?_eq_none.1 hnone _ hwords)

/-- **The order of a table does not matter where no two categories have an opening of the subject.** -/
theorem within_congr {table' : List (Category × List String)}
    (hunique : ∀ c c', Matches table c subject → Matches table c' subject → c = c')
    (h : ∀ c word, Lists table' c word ↔ Lists table c word) :
    within table' subject = within table subject := by
  have hmatches : ∀ c, Matches table' c subject ↔ Matches table c subject := fun c =>
    exists_congr fun word => and_congr_left' (h c word)
  have hunique' : ∀ c c', Matches table' c subject → Matches table' c' subject → c = c' :=
    fun c c' hm hm' => hunique c c' ((hmatches c).1 hm) ((hmatches c').1 hm')
  have hsame : ∀ c, c ≠ unknown → (within table' subject = c ↔ within table subject = c) :=
    fun c hc => by rw [within_eq_iff hunique' hc, within_eq_iff hunique hc, hmatches]
  by_cases hknown : within table subject = unknown
  · by_contra hother
    have hc : within table' subject ≠ unknown := fun h => hother (h.trans hknown.symm)
    exact hc (((hsame _ hc).1 rfl).symm.trans hknown)
  · exact (hsame _ hknown).2 rfl

/-! ### The openings -/

/-- The text begins with a piece whose small letters are an opening of the category. -/
def Begins (c : Category) (t : Text) : Prop :=
  ∃ word, Lists openings c word ∧ ∃ piece rest, t = piece ++ rest ∧ lower piece = word

theorem ascii_of_lists (h : Lists openings c word) : ∀ x ∈ word.toList, x.toNat < 0x80 := by
  have hall : (openings.all fun g => g.2.all fun w => w.toList.all fun x => x.toNat < 0x80) = true := by
    decide +kernel
  obtain ⟨words, hwords, hword⟩ := h
  have hletters := List.all_eq_true.1 (List.all_eq_true.1 hall _ hwords) _ hword
  exact fun x hx => of_decide_eq_true (List.all_eq_true.1 hletters x hx)

theorem ends_of_lists (h : Lists openings c word) : ∃ a front z, word.toList = a :: front ∧
    (a :: front).getLast? = some z ∧ isBlank a = false ∧ isBlank z = false := by
  have hall : ∀ g ∈ openings, ∀ w ∈ g.2, w.toList.head?.any (fun a => !isBlank a) = true ∧
      w.toList.getLast?.any (fun z => !isBlank z) = true := by decide +kernel
  obtain ⟨words, hwords, hword⟩ := h
  obtain ⟨hfirst, hlast⟩ := hall _ hwords _ hword
  cases hcs : word.toList with
  | nil => simp [hcs] at hfirst
  | cons a front =>
    rw [hcs] at hfirst hlast
    obtain ⟨z, hz, hblank⟩ := (Option.any_eq_true _ _).1 hlast
    exact ⟨a, front, z, rfl, hz, by simpa using hfirst, by simpa using hblank⟩

theorem eq_of_leading {word' : String} (h : Lists openings c word) (h' : Lists openings c' word')
    (hp : ofString word <+: ofString word') : c = c' := by
  have hall : ∀ g ∈ openings, ∀ g' ∈ openings, ∀ w ∈ g.2, ∀ w' ∈ g'.2,
      (ofString w).isPrefixOf (ofString w') = true → g.1 = g'.1 := by decide +kernel
  obtain ⟨words, hwords, hword⟩ := h
  obtain ⟨words', hwords', hword'⟩ := h'
  exact hall _ hwords _ hwords' _ hword _ hword' (List.isPrefixOf_iff_prefix.2 hp)

theorem matches_iff : Matches openings c subject ↔ Begins c subject.trim :=
  exists_congr fun _ => and_congr_right fun h => startsWith_lower_iff (ascii_of_lists h)

theorem matches_unique (h : Matches openings c subject) (h' : Matches openings c' subject) :
    c = c' := by
  obtain ⟨word, hword, hp⟩ := h
  obtain ⟨word', hword', hp'⟩ := h'
  rw [startsWith, List.isPrefixOf_iff_prefix] at hp hp'
  rcases List.prefix_or_prefix_of_prefix hp hp' with hle | hle
  · exact eq_of_leading hword hword' hle
  · exact (eq_of_leading hword' hword hle).symm

theorem ofSubject_eq_iff (hc : c ≠ unknown) : ofSubject subject = c ↔ Begins c subject.trim := by
  rw [← matches_iff]
  exact within_eq_iff (fun _ _ => matches_unique) hc

theorem begins_trim {front : List Char} {piece : Text} (hfront : ∀ x ∈ front, isBlank x = true)
    (hword : Lists openings c word) (hpiece : lower piece = word) (rest : Text) :
    Begins c (trim (ofChars front ++ piece ++ rest)) := by
  obtain ⟨cs, rfl, hlower⟩ := exists_chars_of_lower (ascii_of_lists hword) hpiece
  obtain ⟨a, init, z, hchars, hlast, ha, hz⟩ := ends_of_lists hword
  rw [hchars] at hlower
  obtain ⟨a', init', rfl, rfl, rfl⟩ := List.map_eq_cons_iff.1 hlower
  rw [← List.map_cons, List.getLast?_map, Option.map_eq_some_iff] at hlast
  obtain ⟨z', hlast, rfl⟩ := hlast
  rw [isBlank_lowerChar] at ha hz
  have hblank : ∀ p ∈ front.map Piece.char, blankPiece p = true := by
    intro p hp
    obtain ⟨x, hx, rfl⟩ := List.mem_map.1 hp
    exact hfront x hx
  have hend : (Piece.char a' :: init'.map .char).getLast? = some (.char z') := by
    rw [← List.map_cons, List.getLast?_map, hlast]
    rfl
  -- the piece ends where trimming stops
  obtain ⟨more, hmore⟩ := strip_cons_append (p := blankPiece) (a := .char a') (z := .char z') ha hz
    (init'.map .char) (pieces rest) hend
  refine ⟨word, hword, ofChars (a' :: init'), ofPieces more, ?_, hpiece⟩
  have hstrip := strip_append hblank (List.forall_mem_nil _)
    (Piece.char a' :: (init'.map .char ++ pieces rest))
  rw [List.append_nil, hmore] at hstrip
  rw [trim_eq, List.append_assoc, pieces_ofChars_append, pieces_ofChars_append, List.map_cons,
    List.cons_append, hstrip, ofPieces_append, ← List.map_cons, ofPieces_chars]

theorem ofSubject_congr {subject' : Text} (h : subject'.trim.lower = subject.trim.lower) :
    ofSubject subject' = ofSubject subject := by
  rw [ofSubject, ofSubject, h]

/-- **The category of a subject is the one with an opening that the subject begins with**, in
whatever way characters outside ASCII have small letters.  Only one category has such an opening, and
another order of the openings, another text behind the opening, white space around the subject and
other case of ASCII letters give the same category. -/
theorem ofSubject_begins (subject : Text) :
    (∀ c, c ≠ unknown → ∀ small, IsLower small → (ofSubject subject = c ↔
        ∃ word, Lists openings c word ∧ ∃ piece rest, subject.trim = piece ++ rest ∧
          ofChars ((chars piece).map small) = word)) ∧
      (∀ c c', Begins c subject.trim → Begins c' subject.trim → c = c') ∧
        (∀ table, (∀ c word, Lists table c word ↔ Lists openings c word) →
          within table subject = ofSubject subject) ∧
          (∀ front piece rest c word, (∀ x ∈ front, isBlank x = true) →
            subject = ofChars front ++ piece ++ rest → Lists openings c word → lower piece = word →
              ∀ rest', ofSubject (ofChars front ++ piece ++ rest') = ofSubject subject) ∧
            (∀ front back, (∀ x ∈ front, isBlank x = true) → (∀ x ∈ back, isBlank x = true) →
              ofSubject (ofChars front ++ subject ++ ofChars back) = ofSubject subject) ∧
              ∀ subject', lowerAscii subject' = lowerAscii subject →
                ofSubject subject' = ofSubject subject := by
  refine ⟨?_, ?_, ?_, ?_, ?_, ?_⟩
  · intro c hc small hsmall
    rw [ofSubject_eq_iff hc]
    exact exists_congr fun word => and_congr_right fun hword => exists_congr fun piece =>
      exists_congr fun rest => and_congr_right fun _ =>
        (hsmall.lower_eq_iff (ascii_of_lists hword)).symm
  · intro c c' h h'
    exact matches_unique (matches_iff.2 h) (matches_iff.2 h')
  · intro table htable
    exact within_congr (fun _ _ => matches_unique) htable
  · rintro front piece rest c word hfront rfl hword hpiece rest'
    have hknown : c ≠ unknown := by
      have hall : ∀ g ∈ openings, g.1 ≠ unknown := by decide
      obtain ⟨words, hwords, -⟩ := hword
      exact hall _ hwords
    have hgives : ∀ rest, ofSubject (ofChars front ++ piece ++ rest) = c := fun rest =>
      (ofSubject_eq_iff hknown).2 (begins_trim hfront hword hpiece rest)
    rw [hgives, hgives]
  · intro front back hfront hback
    exact ofSubject_congr (congrArg lower (trim_append_blanks hfront hback subject))
  · intro subject' h
    have hsame : ∀ t, ofSubject (lowerAscii t) = ofSubject t := fun t =>
      ofSubject_congr (by rw [trim_lowerAscii, lower_lowerAscii])
    rw [← hsame subject', h, hsame]

/-- An opening with a Kelvin sign for the letter k, behind an em space. -/
def kelvinTask : Text := ofChars ['\u2003'] ++ ofString "[Tas\u212a]" ++ [0xFF]

/-- The subject is a task, also with white space or nothing behind its opening and in small letters. -/
theorem ofSubject_begins_kelvinTask :
    isBlank '\u2003' = true ∧ Lists openings maintenance "[task]" ∧
      lower (ofString "[Tas\u212a]") = ofString "[task]" ∧ IsLower lowerChar ∧
        ofSubject kelvinTask = maintenance ∧ within openings.reverse kelvinTask = maintenance ∧
          ofSubject (ofChars ['\u2003'] ++ ofString "[Tas\u212a]" ++ []) = maintenance ∧
            ofSubject (ofChars [' '] ++ kelvinTask ++ ofChars ['\u2003']) = maintenance ∧
              ofSubject (lowerAscii kelvinTask) = maintenance := by
  obtain ⟨hgives, -, hreordered, hfollowed, hpadded, hcase⟩ := ofSubject_begins kelvinTask
  have hlists : Lists openings maintenance "[task]" :=
    ⟨_, List.mem_of_getElem? (i := 2) rfl, by decide⟩
  have hpiece : lower (ofString "[Tas\u212a]") = ofString "[task]" :=
    (lower_ofChars _).trans (congrArg ofChars (by decide))
  have hlower : IsLower lowerChar := fun _ _ => rfl
  have hblank : ∀ x ∈ ['\u2003'], isBlank x = true := List.forall_mem_singleton.2 rfl
  have htask : ofSubject kelvinTask = maintenance := by
    refine (hgives _ (by decide) _ hlower).2 ⟨_, hlists, ofString "[Tas\u212a]", [0xFF], by cbv, hpiece⟩
  refine ⟨hblank _ (List.mem_singleton_self _), hlists, hpiece, hlower, htask, ?_, ?_, ?_, ?_⟩
  · rw [hreordered _ fun c word => by simp only [Lists, List.mem_reverse], htask]
  · rw [hfollowed _ _ _ _ _ hblank rfl hlists hpiece, htask]
  · rw [hpadded _ _ (List.forall_mem_singleton.2 rfl) hblank, htask]
  · rw [hcase _ (lowerAscii_lowerAscii _), htask]

end Category

end MetricHistory
