import MetricHistory.Proofs.Text.Utf8
import MetricHistory.Text.Blank
import MetricHistory.Text.Case

/-!
# White space and letter case of arbitrary bytes

A text may be cut before any byte that starts a character, whatever stands in front of it
(`Utf8.pieces_append_ofChars`).  So the white space around a text and the case of its letters can be
told apart from the rest, also where the rest is no UTF-8:

* `Text.trim_append_blanks` : more white space around a text does not show when it is trimmed;
* `Text.trim_lowerAscii` and `Text.lower_lowerAscii` : nor does the case of ASCII letters;
* `Text.startsWith_lower_iff` : the small letters of a text start with an ASCII word exactly when
  the text starts with a piece whose small letters are the word.
-/

namespace MetricHistory

namespace Utf8

variable {s t r : Text} {c : Char} {b : UInt8}

theorem payload?_of_mem_tail (h : b ∈ (encode c).tail) : payload? b ≠ none := by
  have hcont : ∀ n, payload? (continuation n) ≠ none := fun n => by simp [payload?_continuation]
  unfold encode at h
  dsimp only at h
  split at h
  · simp at h
  · split at h
    · rw [List.tail_cons, List.mem_singleton] at h
      rw [h]
      exact hcont _
    · split at h
      · rw [List.tail_cons, List.mem_pair] at h
        rcases h with rfl | rfl <;> exact hcont _
      · simp only [List.tail_cons, List.mem_cons, List.not_mem_nil, or_false] at h
        rcases h with rfl | rfl | rfl <;> exact hcont _

theorem payload?_head_encode (c : Char) (h : (encode c).head? = some b) : payload? b = none := by
  have hlead : ∀ n, n < 0x80 ∨ 0xC0 ≤ n → n < 0x100 → payload? (UInt8.ofNat n) = none := by
    intro n hn hmax
    rw [payload?, if_neg]
    rintro ⟨h₁, h₂⟩
    rw [UInt8.le_iff_toNat_le, UInt8.toNat_ofNat_of_lt' hmax] at h₁
    rw [UInt8.lt_iff_toNat_lt, UInt8.toNat_ofNat_of_lt' hmax] at h₂
    change 128 ≤ n at h₁
    change n < 192 at h₂
    omega
  have hmax := toNat_lt c
  unfold encode at h
  dsimp only at h
  split at h
  · obtain rfl := Option.some.inj h
    exact hlead _ (by omega) (by omega)
  · split at h
    · obtain rfl := Option.some.inj h
      exact hlead _ (by omega) (by omega)
    · split at h <;>
      · obtain rfl := Option.some.inj h
        exact hlead _ (by omega) (by omega)

/-- A byte that starts no character still does not when a text that starts with a character
follows. -/
theorem front?_append_eq_none (h : front? (b :: s) = none)
    (ht : ∀ x, t.head? = some x → payload? x = none) : front? (b :: (s ++ t)) = none := by
  cases hf : front? (b :: (s ++ t)) with
  | none => rfl
  | some found =>
    obtain ⟨c, rest⟩ := found
    have heq : (b :: s) ++ t = encode c ++ rest := front?_eq_some_iff.1 hf
    rcases List.append_eq_append_iff.1 heq with ⟨more, hc, htail⟩ | ⟨more, hs, -⟩
    · cases more with
      | nil =>
        -- the character ends where the first text does
        rw [List.append_nil] at hc
        rw [← List.append_nil (b :: s), ← hc, front?_encode] at h
        cases h
      | cons x more =>
        have hx : x ∈ (encode c).tail := by rw [hc]; simp
        exact absurd (ht x (by rw [htail]; rfl)) (payload?_of_mem_tail hx)
    · rw [hs, front?_encode] at h
      cases h

/-- **A text may be cut before any byte that continues no character.** -/
theorem pieces_append (s : Text) (ht : ∀ x, t.head? = some x → payload? x = none) :
    pieces (s ++ t) = pieces s ++ pieces t := by
  induction s using pieces_induction with
  | nil => simp
  | char c r ih => rw [List.append_assoc, pieces_encode_append, pieces_encode_append, ih]; rfl
  | stray b r hf ih =>
    rw [List.cons_append, pieces_of_stray (front?_append_eq_none hf ht), pieces_of_stray hf, ih]
    rfl

theorem ofChars_cons (c : Char) (cs : List Char) : ofChars (c :: cs) = encode c ++ ofChars cs := rfl

theorem ofChars_append (cs ds : List Char) : ofChars (cs ++ ds) = ofChars cs ++ ofChars ds :=
  List.flatMap_append

theorem pieces_append_ofChars (s : Text) (cs : List Char) :
    pieces (s ++ ofChars cs) = pieces s ++ cs.map .char := by
  rw [pieces_append, pieces_ofChars]
  intro x hx
  cases cs with
  | nil => simp [ofChars] at hx
  | cons c cs =>
    rw [ofChars_cons, List.head?_append_of_ne_nil _ (encode_ne_nil c)] at hx
    exact payload?_head_encode c hx

theorem pieces_ofChars_append (cs : List Char) (t : Text) :
    pieces (ofChars cs ++ t) = cs.map .char ++ pieces t := by
  induction cs with
  | nil => rfl
  | cons c cs ih => rw [ofChars_cons, List.append_assoc, pieces_encode_append, ih]; rfl

theorem chars_ofChars (cs : List Char) : chars (ofChars cs) = cs := by
  rw [chars, pieces_ofChars, List.map_map]
  exact List.map_id cs

theorem chars_ofChars_append (cs : List Char) (t : Text) :
    chars (ofChars cs ++ t) = cs ++ chars t := by
  rw [chars, pieces_ofChars_append, List.map_append, ← chars, List.map_map]
  congr 1
  exact List.map_id cs

theorem ofChars_injective : Function.Injective ofChars := fun cs ds h => by
  rw [← chars_ofChars cs, h, chars_ofChars]

theorem ofPieces_append (ps qs : List Piece) : ofPieces (ps ++ qs) = ofPieces ps ++ ofPieces qs :=
  List.flatMap_append

theorem ofPieces_chars (cs : List Char) : ofPieces (cs.map .char) = ofChars cs := by
  rw [ofPieces, List.flatMap_map]
  rfl

theorem eq_ofChars_of_pieces {cs : List Char} (h : pieces t = cs.map .char) : t = ofChars cs := by
  rw [← ofPieces_pieces t, h, ofPieces_chars]

end Utf8

namespace Text

open Utf8

variable {s t : Text}

/-! ### White space -/

/-- A list without the elements in `p` at both of its ends. -/
def strip {α : Type} (p : α → Bool) (l : List α) : List α :=
  ((l.dropWhile p).reverse.dropWhile p).reverse

theorem trim_eq (t : Text) : trim t = ofPieces (strip blankPiece (pieces t)) := rfl

theorem strip_append {α : Type} {p : α → Bool} {as bs : List α} (ha : ∀ a ∈ as, p a = true)
    (hb : ∀ b ∈ bs, p b = true) (l : List α) : strip p (as ++ l ++ bs) = strip p l := by
  have hback : ∀ l : List α, ((l ++ bs).reverse.dropWhile p) = l.reverse.dropWhile p := by
    intro l
    rw [List.reverse_append, List.dropWhile_append_of_pos fun b hb' => hb b (List.mem_reverse.1 hb')]
  rw [strip, List.append_assoc, List.dropWhile_append_of_pos ha, List.dropWhile_append]
  split
  · -- nothing is left, in front of the end or behind it
    rename_i hnil
    rw [List.dropWhile_eq_nil_iff.2 hb, strip, List.isEmpty_iff.1 hnil]
  · rw [hback, strip]

theorem strip_map {α β : Type} {p : α → Bool} {q : β → Bool} {f : α → β} (h : ∀ a, q (f a) = p a)
    (l : List α) : strip q (l.map f) = (strip p l).map f := by
  have hpq : q ∘ f = p := funext h
  simp only [strip, List.dropWhile_map, hpq, ← List.map_reverse]

theorem strip_cons_append {α : Type} {p : α → Bool} {a z : α} (ha : p a = false) (hz : p z = false)
    (front back : List α) (h : (a :: front).getLast? = some z) :
    ∃ rest, strip p (a :: (front ++ back)) = a :: front ++ rest := by
  have hstart : (a :: (front ++ back)).dropWhile p = (a :: front) ++ back := by
    rw [List.dropWhile_cons_of_neg (by simp [ha])]
    rfl
  obtain ⟨init, hinit⟩ : ∃ init, a :: front = init ++ [z] := by
    rw [List.getLast?_eq_some_iff] at h
    exact h
  have hkept : (a :: front).reverse.dropWhile p = (a :: front).reverse := by
    rw [hinit, List.reverse_append]
    exact List.dropWhile_cons_of_neg (by simp [hz])
  refine ⟨(back.reverse.dropWhile p).reverse, ?_⟩
  rw [strip, hstart, List.reverse_append, List.dropWhile_append]
  split
  · rename_i hnil
    rw [hkept, List.reverse_reverse, List.isEmpty_iff.1 hnil, List.reverse_nil, List.append_nil]
  · rw [List.reverse_append, List.reverse_reverse]

/-- **More white space around a text does not show when it is trimmed.** -/
theorem trim_append_blanks {front back : List Char} (hfront : ∀ c ∈ front, isBlank c = true)
    (hback : ∀ c ∈ back, isBlank c = true) (t : Text) :
    trim (ofChars front ++ t ++ ofChars back) = trim t := by
  have hblank : ∀ {cs : List Char}, (∀ c ∈ cs, isBlank c = true) →
      ∀ p ∈ cs.map Piece.char, blankPiece p = true := by
    intro cs hcs p hp
    obtain ⟨c, hc, rfl⟩ := List.mem_map.1 hp
    exact hcs c hc
  rw [trim_eq, pieces_append_ofChars, pieces_ofChars_append,
    strip_append (hblank hfront) (hblank hback), ← trim_eq]

/-! ### ASCII letters -/

/-- The small letter of an ASCII letter, any other character as it is. -/
def lowerAsciiChar (c : Char) : Char := if 'A' ≤ c ∧ c ≤ 'Z' then Char.ofNat (c.toNat + 32) else c

/-- A piece with the small letter of an ASCII letter. -/
def lowerPiece : Piece → Piece
  | .char c => .char (lowerAsciiChar c)
  | .stray b => .stray b

theorem capital_iff (c : Char) : 'A' ≤ c ∧ c ≤ 'Z' ↔ 65 ≤ c.toNat ∧ c.toNat ≤ 90 := by
  rw [Char.le_def, Char.le_def, UInt32.le_iff_toNat_le, UInt32.le_iff_toNat_le]
  rfl

theorem toNat_ofNat {n : ℕ} (h : n < 0xD800) : (Char.ofNat n).toNat = n := by
  rw [Char.toNat_ofNat, if_pos (.inl h)]

theorem toNat_lowerAsciiChar (c : Char) : (lowerAsciiChar c).toNat =
    if 65 ≤ c.toNat ∧ c.toNat ≤ 90 then c.toNat + 32 else c.toNat := by
  rw [lowerAsciiChar]
  simp only [capital_iff]
  split_ifs with h
  · exact toNat_ofNat (by omega)
  · rfl

theorem toNat_lowerByte (b : UInt8) : (lowerByte b).toNat =
    if 65 ≤ b.toNat ∧ b.toNat ≤ 90 then b.toNat + 32 else b.toNat := by
  have hcapital : 65 ≤ b ∧ b ≤ 90 ↔ 65 ≤ b.toNat ∧ b.toNat ≤ 90 := by
    rw [UInt8.le_iff_toNat_le, UInt8.le_iff_toNat_le]
    rfl
  rw [lowerByte]
  simp only [hcapital]
  split_ifs with h
  · rw [UInt8.toNat_add]
    change (b.toNat + 32) % 256 = b.toNat + 32
    omega
  · rfl

theorem lowerByte_lowerByte (b : UInt8) : lowerByte (lowerByte b) = lowerByte b := by
  rw [← UInt8.toNat_inj, toNat_lowerByte, toNat_lowerByte]
  split_ifs <;> omega

theorem lowerAscii_lowerAscii (t : Text) : lowerAscii (lowerAscii t) = lowerAscii t := by
  rw [lowerAscii, lowerAscii, List.map_map]
  exact List.map_congr_left fun b _ => lowerByte_lowerByte b

theorem lowerByte_of_le {b : UInt8} (h : 0x80 ≤ b.toNat) : lowerByte b = b := by
  rw [← UInt8.toNat_inj, toNat_lowerByte, if_neg (by omega)]

theorem lowerAscii_encode (c : Char) : lowerAscii (encode c) = encode (lowerAsciiChar c) := by
  by_cases hc : c.toNat < 0x80
  · have hlow : (lowerAsciiChar c).toNat < 0x80 := by
      rw [toNat_lowerAsciiChar]
      split_ifs <;> omega
    rw [encode_ascii hc, encode_ascii hlow, lowerAscii, List.map_singleton, List.singleton_inj,
      ← UInt8.toNat_inj, toNat_lowerByte, UInt8.toNat_ofNat_of_lt' (hc.trans (by decide)),
      UInt8.toNat_ofNat_of_lt' (hlow.trans (by decide)), toNat_lowerAsciiChar]
  · have hsame : lowerAsciiChar c = c := by
      rw [← Char.toNat_inj, toNat_lowerAsciiChar, if_neg (by omega)]
    rw [hsame, lowerAscii]
    exact (List.map_congr_left fun b hb => lowerByte_of_le (le_of_mem_encode hc hb)).trans
      (List.map_id _)

theorem le_of_stray {b : UInt8} {r : Text} (h : front? (b :: r) = none) : 0x80 ≤ b.toNat := by
  by_contra hb
  have hlt : b < 0x80 := UInt8.lt_iff_toNat_lt.2 (Nat.lt_of_not_le hb)
  have hn : (Char.ofNat b.toNat).toNat = b.toNat := toNat_ofNat (by omega)
  rw [front?_ascii hlt, ← hn, charFrom?_toNat (Nat.zero_le _)] at h
  cases h

theorem lowerAscii_append (s t : Text) : lowerAscii (s ++ t) = lowerAscii s ++ lowerAscii t :=
  List.map_append

theorem front?_lowerAscii_eq_none {b : UInt8} {r : Text} (h : front? (b :: r) = none) :
    front? (b :: lowerAscii r) = none := by
  cases hf : front? (b :: lowerAscii r) with
  | none => rfl
  | some found =>
    obtain ⟨c, rest⟩ := found
    have heq : b :: lowerAscii r = encode c ++ rest := front?_eq_some_iff.1 hf
    have hb := le_of_stray h
    have hc : ¬ c.toNat < 0x80 := by
      intro hc
      rw [encode_ascii hc, List.singleton_append, List.cons.injEq] at heq
      rw [heq.1, UInt8.toNat_ofNat_of_lt' (hc.trans (by decide))] at hb
      omega
    -- the bytes of the character are no letters, so that it stands there already
    have hlower : lowerAscii (b :: r) = encode c ++ rest := by
      rw [← heq, lowerAscii, List.map_cons, lowerByte_of_le hb]
      rfl
    obtain ⟨front, back, hsplit, hfront, -⟩ := List.map_eq_append_iff.1 hlower
    have hsame : front = encode c := by
      rw [← hfront]
      refine ((List.map_congr_left fun x hx => ?_).trans (List.map_id _)).symm
      refine lowerByte_of_le ?_
      by_contra hx'
      have hmem : lowerByte x ∈ encode c := hfront ▸ List.mem_map_of_mem hx
      have hge := le_of_mem_encode hc hmem
      rw [toNat_lowerByte] at hge
      split_ifs at hge <;> omega
    rw [hsplit, hsame, front?_encode] at h
    cases h

theorem pieces_lowerAscii (t : Text) : pieces (lowerAscii t) = (pieces t).map lowerPiece := by
  induction t using pieces_induction with
  | nil => simp [lowerAscii]
  | char c r ih =>
    rw [lowerAscii_append, lowerAscii_encode, pieces_encode_append, pieces_encode_append, ih]
    rfl
  | stray b r hf ih =>
    have hb : lowerAscii (b :: r) = b :: lowerAscii r := by
      rw [lowerAscii, List.map_cons, lowerByte_of_le (le_of_stray hf)]
      rfl
    rw [hb, pieces_of_stray (front?_lowerAscii_eq_none hf), pieces_of_stray hf, ih]
    rfl

theorem le_of_stray_mem {b : UInt8} (h : .stray b ∈ pieces t) : 0x80 ≤ b.toNat := by
  induction t using pieces_induction with
  | nil => simp at h
  | char c r ih =>
    rw [pieces_encode_append, List.mem_cons] at h
    exact ih (h.resolve_left (by simp))
  | stray x r hf ih =>
    rw [pieces_of_stray hf, List.mem_cons, Piece.stray.injEq] at h
    rcases h with rfl | h
    · exact le_of_stray hf
    · exact ih h

theorem isBlank_lowerAsciiChar (c : Char) : isBlank (lowerAsciiChar c) = isBlank c := by
  have hletter : ∀ n, (65 ≤ n ∧ n ≤ 122) → ∀ d : Char, d.toNat = n → isBlank d = false := by
    rintro n hn d rfl
    simp only [isBlank, Bool.or_eq_false_iff, Bool.and_eq_false_iff, decide_eq_false_iff_not,
      beq_eq_false_iff_ne]
    omega
  by_cases hc : 65 ≤ c.toNat ∧ c.toNat ≤ 90
  · have hlow := toNat_lowerAsciiChar c
    rw [if_pos hc] at hlow
    rw [hletter _ (by omega) _ hlow, hletter _ (by omega) c rfl]
  · have hsame : lowerAsciiChar c = c := by
      rw [← Char.toNat_inj, toNat_lowerAsciiChar, if_neg hc]
    rw [hsame]

/-- **Trimming a text does not look at the case of its ASCII letters.** -/
theorem trim_lowerAscii (t : Text) : trim (lowerAscii t) = lowerAscii (trim t) := by
  have hblank : ∀ p, blankPiece (lowerPiece p) = blankPiece p := by
    rintro (c | b)
    · exact isBlank_lowerAsciiChar c
    · rfl
  have hsub : (strip blankPiece (pieces t)).Sublist (pieces t) := by
    have h := ((List.dropWhile_sublist blankPiece
      (l := (((pieces t).dropWhile blankPiece).reverse))).reverse)
    rw [List.reverse_reverse] at h
    exact h.trans (List.dropWhile_sublist _)
  rw [trim_eq, pieces_lowerAscii, strip_map hblank, trim_eq, ofPieces, ofPieces, List.flatMap_map,
    lowerAscii, List.map_flatMap]
  refine List.flatMap_congr fun p hp => ?_
  cases p with
  | char c => exact (lowerAscii_encode c).symm
  | stray b =>
    have hb := le_of_stray_mem (hsub.subset hp)
    change [b] = [lowerByte b]
    rw [lowerByte_of_le hb]

/-! ### Small letters -/

theorem toNat_lowerChar (c : Char) : (lowerChar c).toNat =
    if 65 ≤ c.toNat ∧ c.toNat ≤ 90 then c.toNat + 32
    else if c.toNat = 0x130 then 105 else if c.toNat = 0x212A then 107 else c.toNat := by
  rw [lowerChar]
  simp only [capital_iff]
  split_ifs with h
  · exact toNat_ofNat (by omega)
  · rfl
  · rfl
  · rfl

theorem lower_ofChars (cs : List Char) : lower (ofChars cs) = ofChars (cs.map lowerChar) := by
  rw [lower, chars_ofChars]

theorem isBlank_lowerChar (c : Char) : isBlank (lowerChar c) = isBlank c := by
  have hlow := toNat_lowerChar c
  simp only [isBlank, hlow]
  split_ifs
  · -- neither an ASCII letter nor its capital is white space
    grind
  · simp_all
  · simp_all
  · rfl

theorem lowerChar_lowerAsciiChar (c : Char) : lowerChar (lowerAsciiChar c) = lowerChar c := by
  rw [← Char.toNat_inj, toNat_lowerChar, toNat_lowerChar, toNat_lowerAsciiChar]
  split_ifs <;> omega

/-- **Small letters do not depend on the case of ASCII letters.** -/
theorem lower_lowerAscii (t : Text) : lower (lowerAscii t) = lower t := by
  rw [lower, lower, chars, chars, pieces_lowerAscii, List.map_map, List.map_map, List.map_map]
  congr 1
  refine List.map_congr_left fun p _ => ?_
  cases p with
  | char c => exact lowerChar_lowerAsciiChar c
  | stray b => rfl

theorem exists_chars_of_ascii {ps : List Piece} {word : List Char}
    (hword : ∀ c ∈ word, c.toNat < 0x80) (h : (ps.map Piece.shown).map lowerChar = word) :
    ∃ cs : List Char, ps = cs.map .char ∧ cs.map lowerChar = word := by
  refine ⟨ps.map Piece.shown, ?_, h⟩
  rw [List.map_map]
  refine ((List.map_congr_left fun p hp => ?_).trans (List.map_id ps)).symm
  cases p with
  | char c => rfl
  | stray b =>
    have hmem : lowerChar (Piece.stray b).shown ∈ word :=
      h ▸ List.mem_map_of_mem (List.mem_map_of_mem hp)
    exact absurd (hword _ hmem) (by decide : ¬ (lowerChar replacement).toNat < 0x80)

theorem exists_chars_of_lower {word : String} (hword : ∀ c ∈ word.toList, c.toNat < 0x80)
    (h : lower t = word) :
    ∃ cs : List Char, t = ofChars cs ∧ cs.map lowerChar = word.toList := by
  obtain ⟨cs, hcs, hlower⟩ := exists_chars_of_ascii hword (ofChars_injective h)
  exact ⟨cs, eq_ofChars_of_pieces hcs, hlower⟩

/-- **The small letters of a text start with an ASCII word exactly when the text starts with a piece
whose small letters are the word.** -/
theorem startsWith_lower_iff {word : String} (hword : ∀ c ∈ word.toList, c.toNat < 0x80) :
    (lower t).startsWith word = true ↔ ∃ piece rest, t = piece ++ rest ∧ lower piece = word := by
  rw [startsWith, List.isPrefixOf_iff_prefix]
  constructor
  · rintro ⟨more, hmore⟩
    have hpieces : word.toList.map Piece.char ++ pieces more =
        (((pieces t).map Piece.shown).map lowerChar).map .char := by
      rw [← pieces_ofChars_append, ← pieces_ofChars]
      exact congrArg pieces hmore
    obtain ⟨front, back, hsplit, hfront, -⟩ := List.map_eq_append_iff.1 hpieces.symm
    rw [List.map_map] at hsplit
    obtain ⟨ps, qs, hps, hshown, -⟩ := List.map_eq_append_iff.1 hsplit
    have hinj : Function.Injective Piece.char := fun _ _ => Piece.char.inj
    rw [← List.map_map, List.map_injective_iff.2 hinj hfront] at hshown
    obtain ⟨cs, rfl, hlower⟩ := exists_chars_of_ascii hword hshown
    refine ⟨ofChars cs, ofPieces qs, ?_, ?_⟩
    · rw [← ofPieces_pieces t, hps, ofPieces_append, ofPieces_chars]
    · rw [lower_ofChars, hlower]
      rfl
  · rintro ⟨piece, rest, rfl, hpiece⟩
    obtain ⟨cs, rfl, hlower⟩ := exists_chars_of_lower hword hpiece
    refine ⟨ofChars ((chars rest).map lowerChar), ?_⟩
    rw [← hpiece, lower_ofChars, lower, chars_ofChars_append, List.map_append, ofChars_append]

/-! ### Other small letters -/

/-- A mapping of characters to small letters that differs from `lowerChar` outside ASCII only. -/
def IsLower (small : Char → Char) : Prop :=
  ∀ c, (small c).toNat < 0x80 ∨ (lowerChar c).toNat < 0x80 → small c = lowerChar c

/-- Which small letters characters have outside ASCII does not matter in a comparison with an ASCII
word. -/
theorem IsLower.lower_eq_iff {small : Char → Char} (h : IsLower small) {word : String}
    (hword : ∀ c ∈ word.toList, c.toNat < 0x80) :
    ofChars ((chars t).map small) = word ↔ lower t = word := by
  have hmap : ∀ f : Char → Char, ofChars ((chars t).map f) = word ↔ (chars t).map f = word.toList :=
    fun f => ofChars_injective.eq_iff
  rw [lower, hmap, hmap]
  have hsame : ∀ f : Char → Char, (chars t).map f = word.toList →
      ∀ c ∈ chars t, (f c).toNat < 0x80 := fun f hf c hc =>
    hword _ (hf ▸ List.mem_map_of_mem hc)
  constructor
  · intro hf
    rw [← hf]
    exact List.map_congr_left fun c hc => (h c (.inl (hsame small hf c hc))).symm
  · intro hf
    rw [← hf]
    exact List.map_congr_left fun c hc => h c (.inr (hsame lowerChar hf c hc))

end Text

end MetricHistory
