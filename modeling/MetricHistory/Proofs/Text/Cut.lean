import MetricHistory.Proofs.Text.Blank
import MetricHistory.Text.Cut

/-!
# Shortened texts

A text shows one character for each character that is encoded in it, and U+FFFD for each byte that is
part of none (`Utf8.Shows`).

* `Utf8.shows_iff` : every text shows one sequence of characters, the one that `Utf8.chars` finds;
* `Text.truncate_shows` : **a shortened text shows no more characters than it may, and never a part of
  one: of UTF-8 it is the longest beginning that fits.**
-/

namespace MetricHistory

namespace Utf8

variable {t : Text} {cs ds es : List Char}

/-- The characters that a text shows.  At the front of a text stands a character, or a byte with which
no character begins. -/
inductive Shows : Text → List Char → Prop
  | nil : Shows [] []
  | char (c : Char) {t : Text} {cs : List Char} (h : Shows t cs) : Shows (encode c ++ t) (c :: cs)
  | stray {b : UInt8} {t : Text} {cs : List Char} (hb : ∀ c r, b :: t ≠ encode c ++ r)
      (h : Shows t cs) : Shows (b :: t) (replacement :: cs)

/-- The text is UTF-8: it consists of encoded characters. -/
def IsEncoded (t : Text) : Prop := ∃ cs, t = ofChars cs

theorem front?_eq_none_iff : front? t = none ↔ ∀ c r, t ≠ encode c ++ r := by
  constructor
  · rintro h c r rfl
    rw [front?_encode] at h
    cases h
  · intro h
    cases hf : front? t with
    | none => rfl
    | some found => exact absurd (eq_encode_append hf) (h found.1 found.2)

theorem chars_encode_append (c : Char) (t : Text) : chars (encode c ++ t) = c :: chars t := by
  rw [chars, pieces_encode_append]
  rfl

theorem chars_stray {b : UInt8} (h : front? (b :: t) = none) :
    chars (b :: t) = replacement :: chars t := by
  rw [chars, pieces_of_stray h]
  rfl

theorem shows_chars (t : Text) : Shows t (chars t) := by
  induction t using pieces_induction with
  | nil =>
    rw [chars, pieces_nil]
    exact .nil
  | char c r ih =>
    rw [chars_encode_append]
    exact .char c ih
  | stray b r hf ih =>
    rw [chars_stray hf]
    exact .stray (front?_eq_none_iff.1 hf) ih

/-- **A text shows one sequence of characters.** -/
theorem shows_iff : Shows t cs ↔ chars t = cs := by
  constructor
  · intro h
    induction h with
    | nil => rw [chars, pieces_nil]; rfl
    | char c _ ih => rw [chars_encode_append, ih]
    | stray hb _ ih => rw [chars_stray (front?_eq_none_iff.2 hb), ih]
  · rintro rfl
    exact shows_chars t

theorem shows_ofChars (cs : List Char) : Shows (ofChars cs) cs := shows_iff.2 (chars_ofChars cs)

theorem eq_nil_of_chars (h : chars t = []) : t = [] := by
  rw [← ofPieces_pieces t, List.map_eq_nil_iff.1 h]
  rfl

theorem valid_iff : valid t = true ↔ IsEncoded t := by
  constructor
  · intro h
    exact ⟨chars t, (repair_of_valid h).symm⟩
  · rintro ⟨cs, rfl⟩
    exact valid_ofChars cs

theorem prefix_of_length_le {p : Text} (hp : p <+: ofChars (cs ++ ds)) (hshows : Shows p es)
    (hle : es.length ≤ cs.length) : p <+: ofChars cs := by
  rw [ofChars_append] at hp
  rcases List.prefix_or_prefix_of_prefix hp (List.prefix_append _ _) with h | ⟨more, rfl⟩
  · exact h
  · -- what the beginning holds behind the characters would show one more
    rw [shows_iff, chars_ofChars_append] at hshows
    have hmore : chars more = [] := by
      rw [← List.length_eq_zero_iff]
      have := congrArg List.length hshows
      rw [List.length_append] at this
      omega
    rw [eq_nil_of_chars hmore, List.append_nil]

end Utf8

namespace Text

open Utf8

variable {t : Text} {cs : List Char} {n : ℕ}

/-! ### Truncation -/

theorem truncate_of_le (h : Shows t cs) (hn : cs.length ≤ n) : truncate n t = t := by
  rw [← shows_iff.1 h] at hn
  exact if_pos hn

theorem truncate_of_lt (h : Shows t cs) (hn : n < cs.length) :
    truncate n t = ofChars (cs.take n) := by
  rw [← shows_iff.1 h] at hn ⊢
  exact if_neg (Nat.not_le.2 hn)

/-- In any case the first characters are shown. -/
theorem shows_truncate (h : Shows t cs) (n : ℕ) : Shows (truncate n t) (cs.take n) := by
  rcases le_or_gt cs.length n with hn | hn
  · rwa [truncate_of_le h hn, List.take_of_length_le hn]
  · rw [truncate_of_lt h hn]
    exact shows_ofChars _

theorem truncate_ofChars (cs : List Char) (n : ℕ) :
    truncate n (ofChars cs) = ofChars (cs.take n) := by
  rcases le_or_gt cs.length n with hn | hn
  · rw [truncate_of_le (shows_ofChars cs) hn, List.take_of_length_le hn]
  · exact truncate_of_lt (shows_ofChars cs) hn

/-- **A text that shows too many characters is cut behind the last one that fits.**  A shortened text
shows at most `n` characters and is not shortened again.  Of UTF-8 the longest beginning with at most
`n` characters is left, which is UTF-8; any other text stays as it is if it fits, and otherwise UTF-8
is left that shows the first `n` characters, with U+FFFD in the place of stray bytes. -/
theorem truncate_shows (h : Shows t cs) (n : ℕ) :
    truncate? n t = some (truncate n t) ∧
      (∃ ds, Shows (truncate n t) ds ∧ ds.length ≤ n) ∧
        truncate n (truncate n t) = truncate n t ∧
          (IsEncoded t → IsEncoded (truncate n t) ∧ truncate n t <+: t ∧
            ∀ p ds, p <+: t → Shows p ds → ds.length ≤ n → p <+: truncate n t) ∧
            (¬ IsEncoded t → (cs.length ≤ n → truncate n t = t) ∧
              (n < cs.length → IsEncoded (truncate n t) ∧ Shows (truncate n t) (cs.take n))) := by
  refine ⟨?_, ?_, ?_, ?_, ?_⟩
  · rw [truncate?, if_neg (Int.natCast_nonneg n).not_gt, Int.toNat_natCast]
  · exact ⟨_, shows_truncate h n, List.length_take_le n cs⟩
  · exact truncate_of_le (shows_truncate h n) (List.length_take_le n cs)
  · rintro ⟨es, rfl⟩
    have hsplit : ofChars es = ofChars (es.take n ++ es.drop n) := by rw [List.take_append_drop]
    rw [truncate_ofChars]
    refine ⟨⟨_, rfl⟩, ?_, fun p ds hp hds hle => ?_⟩
    · rw [hsplit, ofChars_append]
      exact List.prefix_append _ _
    · rcases le_or_gt es.length n with hn | hn
      · rwa [List.take_of_length_le hn]
      · rw [hsplit] at hp
        exact prefix_of_length_le hp hds (by rwa [List.length_take_of_le hn.le])
  · intro _
    refine ⟨truncate_of_le h, fun hn => ⟨?_, shows_truncate h n⟩⟩
    rw [truncate_of_lt h hn]
    exact ⟨_, rfl⟩

/-- An overlong form, a surrogate and a letter with an accent in front of a character that is cut
short. -/
def brokenText : Text := [0xC0, 0x80, 0xED, 0xA0, 0x80] ++ ofString "né" ++ [0xE2, 0x82]

/-- The text shows nine characters, two of them encoded, and no stray byte is left of it when it is
shortened. -/
theorem truncate_shows_broken :
    ∃ cs, Shows brokenText cs ∧ cs.length = 9 ∧ ¬ IsEncoded brokenText ∧
      truncate? (7 : ℕ) brokenText = some (truncate 7 brokenText) ∧
        truncate 9 brokenText = brokenText ∧ IsEncoded (truncate 7 brokenText) ∧
          Shows (truncate 7 brokenText) (List.replicate 5 replacement ++ ['n', 'é']) := by
  have hchars : chars brokenText =
      List.replicate 5 replacement ++ ['n', 'é'] ++ List.replicate 2 replacement := by cbv
  have hshows := shows_iff.2 hchars
  have hbroken : ¬ IsEncoded brokenText := by
    rw [← valid_iff]
    have : valid brokenText = false := by cbv
    simp [this]
  obtain ⟨hresult, -, -, -, hcut⟩ := truncate_shows hshows 7
  obtain ⟨-, -, -, -, hkept⟩ := truncate_shows hshows 9
  obtain ⟨hencoded, hfirst⟩ := (hcut hbroken).2 (by decide)
  exact ⟨_, hshows, by decide, hbroken, hresult, (hkept hbroken).1 (by decide), hencoded, hfirst⟩

end Text

end MetricHistory
