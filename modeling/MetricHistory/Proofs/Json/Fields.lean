import MetricHistory.Json.Decode
import MetricHistory.Proofs.Calendar.Notation
import MetricHistory.Proofs.Json.Strings

/-!
# Fields are read back from the values they were written as

* `Json.decodeText_ofText` : a text of characters;
* `Json.decodeInt_ofInt` : an integer of 64 bits;
* `Json.decodeTime_ofText` : a time, of whose notation no character is escaped.
-/

namespace MetricHistory

open Literal (Digits escape escapeChar)

/-! ### Plain notation -/

/-- The bytes of numbers and times. -/
def Text.notationBytes : Text := "0123456789-+:.TZ"

theorem Text.mem_notationBytes_of_isDigit {b : UInt8} (h : isDigit b = true) :
    b ∈ notationBytes := by
  have hall : ∀ n < 10, UInt8.ofNat (48 + n) ∈ notationBytes := by decide
  simp only [isDigit, Bool.and_eq_true, decide_eq_true_eq] at h
  have h₁ : 48 ≤ b.toNat := UInt8.le_iff_toNat_le.1 h.1
  have h₂ : b.toNat ≤ 57 := UInt8.le_iff_toNat_le.1 h.2
  have hb := hall (b.toNat - 48) (by omega)
  rwa [show 48 + (b.toNat - 48) = b.toNat by omega, UInt8.ofNat_toNat] at hb

theorem Literal.escape_notation (markup : Bool) {t : Text} (h : ∀ b ∈ t, b ∈ Text.notationBytes) :
    escape markup t = t := by
  have hplain : ∀ b ∈ Text.notationBytes, Utf8.encode (Char.ofNat b.toNat) = [b] ∧
      ∀ markup, escapeChar markup (Char.ofNat b.toNat) = [b] := by decide +kernel
  induction t with
  | nil => simp [escape]
  | cons b t ih =>
    obtain ⟨hencode, hescape⟩ := hplain b (h b (by simp))
    have hpieces := Utf8.pieces_encode_append (Char.ofNat b.toNat) t
    rw [hencode] at hpieces
    change escape markup ([b] ++ t) = b :: t
    rw [escape, hpieces, List.flatMap_cons, ← escape, ih fun c hc => h c (List.mem_cons_of_mem b hc)]
    exact congrArg (· ++ t) (hescape markup)

namespace Time

theorem mem_ofNatPadded {w n : ℕ} {b : UInt8} (h : b ∈ Text.ofNatPadded w n) :
    b ∈ Text.notationBytes := by
  refine Text.mem_notationBytes_of_isDigit ?_
  rcases List.mem_append.1 h with hb | hb
  · exact Text.digits_zeros _ b hb
  · exact Text.digits_ofNat n b hb

theorem mem_padded {w : ℕ} {i : Int} {b : UInt8} (h : b ∈ Date.padded w i) :
    b ∈ Text.notationBytes := by
  unfold Date.padded at h
  split at h
  · rcases List.mem_append.1 h with h | h
    · exact (show ∀ b ∈ Text.ofString "-", b ∈ Text.notationBytes by decide +kernel) b h
    · exact mem_ofNatPadded h
  · exact mem_ofNatPadded h

theorem mem_fractionText {nanos : ℕ} {b : UInt8} (h : b ∈ fractionText nanos) :
    b ∈ Text.notationBytes := by
  unfold fractionText at h
  split at h
  · exact absurd h (show b ∉ ([] : Text) by simp)
  · rcases List.mem_append.1 h with h | h
    · exact (show ∀ b ∈ Text.ofString ".", b ∈ Text.notationBytes by decide +kernel) b h
    · refine mem_ofNatPadded (w := 9) (n := nanos) ?_
      exact List.mem_reverse.1 ((List.dropWhile_sublist _).subset (List.mem_reverse.1 h))

theorem mem_zone {offset : Int} {b : UInt8} (h : b ∈ zone offset) : b ∈ Text.notationBytes := by
  have hmarks : ∀ b ∈ Text.ofString "Z-+:", b ∈ Text.notationBytes := by decide +kernel
  unfold zone at h
  dsimp only at h
  split at h
  · exact hmarks b (List.mem_append_left (Text.ofString "-+:") h)
  simp only [List.mem_append] at h
  rcases h with ((h | h) | h) | h
  · refine hmarks b ?_
    split at h <;> rw [List.mem_singleton.1 h] <;> decide +kernel
  · exact mem_ofNatPadded h
  · exact hmarks b (List.mem_append_right (Text.ofString "Z-+") h)
  · exact mem_ofNatPadded h

theorem mem_clockText {t : Time} {b : UInt8} (h : b ∈ t.clockText) : b ∈ Text.notationBytes := by
  have hmark : ∀ m ∈ ["-", ":", "T"], ∀ b ∈ Text.ofString m, b ∈ Text.notationBytes := by
    decide +kernel
  simp only [clockText, Date.iso, Date.yearMonth, List.mem_append] at h
  rcases h with ((((((((((h | h) | h) | h) | h) | h) | h) | h) | h) | h) | h) | h
  · exact mem_padded h
  · exact hmark _ (by simp) b h
  · exact mem_ofNatPadded h
  · exact hmark _ (by simp) b h
  · exact mem_ofNatPadded h
  · exact hmark _ (by simp) b h
  · exact mem_ofNatPadded h
  · exact hmark _ (by simp) b h
  · exact mem_ofNatPadded h
  · exact hmark _ (by simp) b h
  · exact mem_ofNatPadded h
  · exact mem_fractionText h

theorem mem_rfc3339 {t : Time} {b : UInt8} (h : b ∈ t.rfc3339 true) : b ∈ Text.notationBytes := by
  rw [rfc3339_true] at h
  exact (List.mem_append.1 h).elim mem_clockText mem_zone

end Time

namespace Json

theorem decodeText_ofText_repair (markup : Bool) (t start : Text) :
    decodeText start (ofText markup t) = some (Utf8.repair t) := by
  rw [ofText, decodeText, Literal.unescape_escape]

theorem decodeText_ofText (markup : Bool) {t : Text} (h : Utf8.valid t = true) (start : Text) :
    decodeText start (ofText markup t) = some t := by
  rw [decodeText_ofText_repair, Utf8.repair_of_valid h]

theorem decodeTime_ofText (markup : Bool) {t : Time} (h : t.Writable) (start : Time) :
    decodeTime start (ofText markup (t.rfc3339 true)) = some t := by
  rw [ofText, decodeTime, Literal.escape_notation markup fun _ => Time.mem_rfc3339,
    Time.parse?_rfc3339 h]

theorem decodeInt_ofInt {i : Int} (h₁ : minInt64 ≤ i) (h₂ : i ≤ maxInt64) (start : Int) :
    decodeInt start (ofInt i) = some i := by
  have hread : Text.int? (Text.ofInt i) = some i := by
    have hnat : Text.nat? (Text.ofNat i.natAbs) = some i.natAbs := by
      rw [Text.nat?_of_digits (Text.digits_ofNat _) (Text.ofNat_ne_nil _), Text.numeral_ofNat]
    rw [Text.ofInt]
    split
    · rw [Text.int?, if_pos rfl, hnat]
      exact congrArg some (show -(i.natAbs : Int) = i by omega)
    · obtain ⟨b, ds, hb⟩ : ∃ b ds, Text.ofNat i.natAbs = b :: ds :=
        List.exists_cons_of_ne_nil (Text.ofNat_ne_nil _)
      have hdigit := Text.digits_ofNat i.natAbs b (by rw [hb]; simp)
      have hminus : b ≠ Text.byte '-' := by
        rintro rfl
        exact absurd hdigit (by decide)
      have hplus : b ≠ Text.byte '+' := by
        rintro rfl
        exact absurd hdigit (by decide)
      rw [hb] at hnat ⊢
      rw [Text.int?, if_neg hminus, if_neg hplus, hnat, Option.map_some]
      exact congrArg some (show (i.natAbs : Int) = i by omega)
  rw [ofInt, decodeInt, Literal.int64?, hread]
  simp [h₁, h₂]

end Json

end MetricHistory
