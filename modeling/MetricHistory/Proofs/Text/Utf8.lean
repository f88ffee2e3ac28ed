import Mathlib
import MetricHistory.Text.Utf8

/-!
# Characters and their bytes

* `Utf8.front?_eq_some_iff` : a character stands at the front of a text exactly when the text
  starts with its encoding;
* `Utf8.ofPieces_pieces` : cutting a text into pieces loses nothing;
* `Utf8.repair_repair` : a text has to be repaired only once, and a valid one not at all
  (`Utf8.repair_of_valid`).
-/

namespace MetricHistory

namespace Utf8

variable {t r : Text} {c : Char} {b : UInt8}

/-! ### Single characters -/

theorem payload?_eq_some {x : ℕ} (h : payload? b = some x) :
    x < 0x40 ∧ b.toNat = 0x80 + x := by
  unfold payload? at h
  split at h
  · rename_i hb
    simp only [Option.some.injEq] at h
    have h₁ := UInt8.le_iff_toNat_le.1 hb.1
    have h₂ := UInt8.lt_iff_toNat_lt.1 hb.2
    change 128 ≤ b.toNat at h₁
    change b.toNat < 192 at h₂
    omega
  · simp at h

theorem charFrom?_eq_some {low n : ℕ} (h : charFrom? low n = some c) : c.toNat = n ∧ low ≤ n := by
  unfold charFrom? at h
  split at h
  · rename_i hv
    split at h
    · rename_i hlow
      simp only [Option.some.injEq] at h
      subst h
      exact ⟨by simp [Char.ofNatAux, Char.toNat, UInt32.toNat], hlow⟩
    · simp at h
  · simp at h

theorem charFrom?_toNat {low : ℕ} (h : low ≤ c.toNat) : charFrom? low c.toNat = some c := by
  have hv : c.toNat.isValidChar := c.valid
  rw [charFrom?, dif_pos hv, if_pos h]
  congr 1

theorem byte_eq {b : UInt8} {n : ℕ} (h : b.toNat = n) : b = UInt8.ofNat n := by
  rw [← h, UInt8.ofNat_toNat]

theorem payload?_continuation (n : ℕ) : payload? (continuation n) = some (n % 0x40) := by
  have hn : (continuation n).toNat = 0x80 + n % 0x40 := by
    rw [continuation, UInt8.toNat_ofNat']
    omega
  have h₁ : (0x80 : UInt8) ≤ continuation n := by
    rw [UInt8.le_iff_toNat_le, hn]
    exact Nat.le_add_right _ _
  have h₂ : continuation n < (0xC0 : UInt8) := by
    rw [UInt8.lt_iff_toNat_lt, hn]
    change 128 + n % 64 < 192
    omega
  rw [payload?, if_pos ⟨h₁, h₂⟩, hn, Nat.add_sub_cancel_left]

theorem eq_continuation {x n : ℕ} (h : payload? b = some x) (hn : n % 0x40 = x) :
    b = continuation n := by
  obtain ⟨-, hb⟩ := payload?_eq_some h
  rw [continuation, hn]
  exact byte_eq hb

/-! The bytes a character is read from are its encoding, one lemma for each length. -/

theorem encode_one {b : UInt8} (hb : b.toNat < 0x80) (hc : charFrom? 0 b.toNat = some c) :
    encode c = [b] := by
  obtain ⟨hn, -⟩ := charFrom?_eq_some hc
  rw [encode, if_pos (by omega), hn, UInt8.ofNat_toNat]

theorem encode_two {b b₁ : UInt8} {x : ℕ} (hge : 0x80 ≤ b.toNat) (hlt : b.toNat < 0xE0)
    (hx : payload? b₁ = some x) (hc : charFrom? 0x80 ((b.toNat - 0xC0) * 0x40 + x) = some c) :
    encode c = [b, b₁] := by
  obtain ⟨hn, hlow⟩ := charFrom?_eq_some hc
  obtain ⟨hx', -⟩ := payload?_eq_some hx
  simp only [encode, if_neg (by omega : ¬ c.toNat < 0x80), if_pos (by omega : c.toNat < 0x800)]
  rw [← eq_continuation hx (by omega), ← byte_eq (by omega : b.toNat = _)]

theorem encode_three {b b₁ b₂ : UInt8} {x y : ℕ} (hge : 0xE0 ≤ b.toNat) (hlt : b.toNat < 0xF0)
    (hx : payload? b₁ = some x) (hy : payload? b₂ = some y)
    (hc : charFrom? 0x800 (((b.toNat - 0xE0) * 0x40 + x) * 0x40 + y) = some c) :
    encode c = [b, b₁, b₂] := by
  obtain ⟨hn, hlow⟩ := charFrom?_eq_some hc
  obtain ⟨hx', -⟩ := payload?_eq_some hx
  obtain ⟨hy', -⟩ := payload?_eq_some hy
  simp only [encode, if_neg (by omega : ¬ c.toNat < 0x80), if_neg (by omega : ¬ c.toNat < 0x800),
    if_pos (by omega : c.toNat < 0x10000)]
  rw [← eq_continuation hx (by omega), ← eq_continuation hy (by omega),
    ← byte_eq (by omega : b.toNat = _)]

theorem encode_four {b b₁ b₂ b₃ : UInt8} {x y z : ℕ} (hge : 0xF0 ≤ b.toNat)
    (hx : payload? b₁ = some x) (hy : payload? b₂ = some y) (hz : payload? b₃ = some z)
    (hc : charFrom? 0x10000 ((((b.toNat - 0xF0) * 0x40 + x) * 0x40 + y) * 0x40 + z) = some c) :
    encode c = [b, b₁, b₂, b₃] := by
  obtain ⟨hn, hlow⟩ := charFrom?_eq_some hc
  obtain ⟨hx', -⟩ := payload?_eq_some hx
  obtain ⟨hy', -⟩ := payload?_eq_some hy
  obtain ⟨hz', -⟩ := payload?_eq_some hz
  simp only [encode, if_neg (by omega : ¬ c.toNat < 0x80), if_neg (by omega : ¬ c.toNat < 0x800),
    if_neg (by omega : ¬ c.toNat < 0x10000)]
  rw [← eq_continuation hx (by omega), ← eq_continuation hy (by omega),
    ← eq_continuation hz (by omega), ← byte_eq (by omega : b.toNat = _)]

theorem eq_encode_append (h : front? t = some (c, r)) : t = encode c ++ r := by
  unfold front? at h
  split at h
  · simp at h
  split at h
  · rename_i hb
    simp only [Option.map_eq_some_iff, Prod.mk.injEq] at h
    obtain ⟨_, hc, rfl, rfl⟩ := h
    rw [encode_one (UInt8.lt_iff_toNat_lt.1 hb) hc]
    rfl
  rename_i hb₁
  split at h
  · rename_i hb₂
    split at h
    · simp only [Option.bind_eq_bind, Option.bind_eq_some_iff, Option.some.injEq, Prod.mk.injEq] at h
      obtain ⟨x, hx, ch, hc, rfl, rfl⟩ := h
      rw [encode_two (UInt8.le_iff_toNat_le.1 (UInt8.not_lt.1 hb₁)) (UInt8.lt_iff_toNat_lt.1 hb₂)
        hx hc]
      rfl
    · simp at h
  rename_i hb₂
  split at h
  · rename_i hb₃
    split at h
    · simp only [Option.bind_eq_bind, Option.bind_eq_some_iff, Option.some.injEq, Prod.mk.injEq] at h
      obtain ⟨x, hx, y, hy, ch, hc, rfl, rfl⟩ := h
      rw [encode_three (UInt8.le_iff_toNat_le.1 (UInt8.not_lt.1 hb₂))
        (UInt8.lt_iff_toNat_lt.1 hb₃) hx hy hc]
      rfl
    · simp at h
  · rename_i hb₃
    split at h
    · simp only [Option.bind_eq_bind, Option.bind_eq_some_iff, Option.some.injEq, Prod.mk.injEq] at h
      obtain ⟨x, hx, y, hy, z, hz, ch, hc, rfl, rfl⟩ := h
      rw [encode_four (UInt8.le_iff_toNat_le.1 (UInt8.not_lt.1 hb₃)) hx hy hz hc]
      rfl
    · simp at h

theorem toNat_lt (c : Char) : c.toNat < 0x110000 := by
  rcases c.valid with h | h
  · exact lt_trans h (by norm_num)
  · exact h.2

theorem front?_ascii (h : b < 0x80) (t : Text) :
    front? (b :: t) = (charFrom? 0 b.toNat).map (·, t) := by
  rw [front?.eq_def]
  simp only [h, if_true]

theorem front?_encode (c : Char) (r : Text) : front? (encode c ++ r) = some (c, r) := by
  have hmax := toNat_lt c
  by_cases h₁ : c.toNat < 0x80
  · rw [encode, if_pos h₁, List.singleton_append,
      front?_ascii ((UInt8.ofNat_lt_iff (h₁.trans (by decide))).2 h₁),
      UInt8.toNat_ofNat_of_lt' (h₁.trans (by decide)),
      charFrom?_toNat (Nat.zero_le _)]
    rfl
  by_cases h₂ : c.toNat < 0x800
  · have hb : 0xC0 + c.toNat / 0x40 < 256 := by omega
    have hn : (0xC0 + c.toNat / 0x40 - 0xC0) * 0x40 + c.toNat % 0x40 = c.toNat := by omega
    simp only [encode, if_neg h₁, if_pos h₂, List.cons_append, List.nil_append]
    rw [front?.eq_def]
    simp only [UInt8.ofNat_lt_iff hb, UInt8.reduceToNat]
    rw [if_neg (by omega), if_pos (by omega), payload?_continuation, UInt8.toNat_ofNat_of_lt' hb]
    simp only [Option.bind_eq_bind, Option.bind_some, hn, charFrom?_toNat (Nat.le_of_not_lt h₁)]
  by_cases h₃ : c.toNat < 0x10000
  · have hb : 0xE0 + c.toNat / 0x1000 < 256 := by omega
    have hn : ((0xE0 + c.toNat / 0x1000 - 0xE0) * 0x40 + c.toNat / 0x40 % 0x40) * 0x40 +
        c.toNat % 0x40 = c.toNat := by omega
    simp only [encode, if_neg h₁, if_neg h₂, if_pos h₃, List.cons_append, List.nil_append]
    rw [front?.eq_def]
    simp only [UInt8.ofNat_lt_iff hb, UInt8.reduceToNat]
    rw [if_neg (by omega), if_neg (by omega), if_pos (by omega), payload?_continuation,
      payload?_continuation, UInt8.toNat_ofNat_of_lt' hb]
    simp only [Option.bind_eq_bind, Option.bind_some, hn, charFrom?_toNat (Nat.le_of_not_lt h₂)]
  · have hb : 0xF0 + c.toNat / 0x40000 < 256 := by omega
    have hn : (((0xF0 + c.toNat / 0x40000 - 0xF0) * 0x40 + c.toNat / 0x1000 % 0x40) * 0x40 +
        c.toNat / 0x40 % 0x40) * 0x40 + c.toNat % 0x40 = c.toNat := by omega
    simp only [encode, if_neg h₁, if_neg h₂, if_neg h₃, List.cons_append, List.nil_append]
    rw [front?.eq_def]
    simp only [UInt8.ofNat_lt_iff hb, UInt8.reduceToNat]
    rw [if_neg (by omega), if_neg (by omega), if_neg (by omega), payload?_continuation,
      payload?_continuation, payload?_continuation, UInt8.toNat_ofNat_of_lt' hb]
    simp only [Option.bind_eq_bind, Option.bind_some, hn, charFrom?_toNat (Nat.le_of_not_lt h₃)]

theorem encode_ne_nil (c : Char) : encode c ≠ [] := by
  intro h
  have hfront := front?_encode c []
  rw [h] at hfront
  simp [front?] at hfront

/-- **A character stands at the front of a text exactly when the text starts with its
encoding.** -/
theorem front?_eq_some_iff : front? t = some (c, r) ↔ t = encode c ++ r :=
  ⟨eq_encode_append, fun h => h ▸ front?_encode c r⟩

theorem encode_ascii (h : c.toNat < 0x80) : encode c = [UInt8.ofNat c.toNat] := if_pos h

theorem le_of_mem_encode (h : ¬ c.toNat < 0x80) (hb : b ∈ encode c) : 0x80 ≤ b.toNat := by
  have hcont : ∀ n, 0x80 ≤ (continuation n).toNat := by
    intro n
    rw [continuation, UInt8.toNat_ofNat']
    omega
  have hmax := toNat_lt c
  unfold encode at hb
  simp only [if_neg h] at hb
  split at hb
  · rcases List.mem_cons.1 hb with rfl | hb
    · rw [UInt8.toNat_ofNat']
      omega
    · rw [List.mem_singleton.1 hb]
      exact hcont _
  · split at hb
    · rcases List.mem_cons.1 hb with rfl | hb
      · rw [UInt8.toNat_ofNat']
        omega
      · rcases List.mem_cons.1 hb with rfl | hb
        · exact hcont _
        · rw [List.mem_singleton.1 hb]
          exact hcont _
    · rcases List.mem_cons.1 hb with rfl | hb
      · rw [UInt8.toNat_ofNat']
        omega
      · rcases List.mem_cons.1 hb with rfl | hb
        · exact hcont _
        · rcases List.mem_cons.1 hb with rfl | hb
          · exact hcont _
          · rw [List.mem_singleton.1 hb]
            exact hcont _

/-! ### Pieces -/

@[simp] theorem pieces_nil : pieces [] = [] := by
  rw [pieces]
  rfl

theorem pieces_of_front? (h : front? t = some (c, r)) : pieces t = .char c :: pieces r := by
  rw [pieces]
  split
  · rename_i h'
    rw [h] at h'
    simp only [Option.some.injEq, Prod.mk.injEq] at h'
    rw [h'.1, h'.2]
  · rename_i h'
    rw [h] at h'
    simp at h'

theorem pieces_of_stray (h : front? (b :: t) = none) : pieces (b :: t) = .stray b :: pieces t := by
  rw [pieces]
  split
  · rename_i h'
    rw [h] at h'
    simp at h'
  · rfl

theorem pieces_encode_append (c : Char) (r : Text) :
    pieces (encode c ++ r) = .char c :: pieces r :=
  pieces_of_front? (front?_encode c r)

/-- An induction over a text by its pieces. -/
theorem pieces_induction {motive : Text → Prop} (nil : motive [])
    (char : ∀ c r, motive r → motive (encode c ++ r))
    (stray : ∀ b r, front? (b :: r) = none → motive r → motive (b :: r)) (t : Text) : motive t := by
  induction hk : t.length using Nat.strongRecOn generalizing t with
  | ind k ih =>
    cases hf : front? t with
    | some p =>
      obtain ⟨c, r⟩ := p
      have hlt := length_lt_of_front? hf
      rw [eq_encode_append hf]
      exact char c r (ih r.length (by omega) r rfl)
    | none =>
      cases t with
      | nil => exact nil
      | cons b r =>
        rw [List.length_cons] at hk
        exact stray b r hf (ih r.length (by omega) r rfl)

/-- **Cutting a text into pieces loses nothing.** -/
theorem ofPieces_pieces (t : Text) : ofPieces (pieces t) = t := by
  induction t using pieces_induction with
  | nil => simp [ofPieces]
  | char c r ih =>
    rw [pieces_encode_append, ofPieces, List.flatMap_cons, ← ofPieces, ih]
    rfl
  | stray b r hf ih =>
    rw [pieces_of_stray hf, ofPieces, List.flatMap_cons, ← ofPieces, ih]
    rfl

theorem pieces_ofChars (cs : List Char) : pieces (ofChars cs) = cs.map .char := by
  induction cs with
  | nil => simp [ofChars]
  | cons c cs ih => rw [ofChars, List.flatMap_cons, ← ofChars, pieces_encode_append, ih, List.map_cons]

/-- **A text has to be repaired only once.** -/
theorem repair_repair (t : Text) : repair (repair t) = repair t := by
  have : chars (ofChars (chars t)) = chars t := by
    rw [chars, pieces_ofChars, List.map_map]
    exact List.map_id _
  rw [repair, repair, this]

theorem ofChars_shown {ps : List Piece}
    (h : (ps.all fun | .char _ => true | .stray _ => false) = true) :
    ofChars (ps.map Piece.shown) = ofPieces ps := by
  induction ps with
  | nil => rfl
  | cons p ps ih =>
    rw [List.all_cons, Bool.and_eq_true] at h
    cases p with
    | char c =>
      rw [List.map_cons, ofChars, List.flatMap_cons, ← ofChars, ih h.2]
      rfl
    | stray b => simp at h

theorem repair_of_valid (h : valid t = true) : repair t = t := by
  rw [repair, chars, ofChars_shown h, ofPieces_pieces]

theorem valid_ofChars (cs : List Char) : valid (ofChars cs) = true := by
  rw [valid, pieces_ofChars]
  simp

/-- **Only well-formed texts need no repair.** -/
theorem repair_eq_self_iff : repair t = t ↔ valid t = true := by
  constructor
  · intro h
    rw [← h]
    exact valid_ofChars _
  · exact repair_of_valid

end Utf8

end MetricHistory
