import MetricHistory.Proofs.Text.Blank
import MetricHistory.Text.Quoted

/-!
# Reading quoted texts

Between the quotes every piece of a text is shown in a way that can be told from all others and from
the closing quote.

* `Text.digits?_hexOf` : a number that fits is read back from its hexadecimal notation;
* `Text.unquoted?_quotePiece` : so is a piece of a text, by `Text.unquoted?`, whatever follows it;
* `Text.quoted_append_inj` : **a quoted text shows which text it quotes and where it ends.**
-/

namespace MetricHistory

namespace Text

open Utf8

/-! ### Hexadecimal notation -/

/-- A hexadecimal digit. -/
def hexDigit (n : ℕ) : UInt8 := if n < 10 then UInt8.ofNat (48 + n) else UInt8.ofNat (87 + n)

theorem hexByte_eq (b : UInt8) : hexByte b = [hexDigit (b.toNat / 16), hexDigit (b.toNat % 16)] := rfl

theorem digitValue?_hexDigit {n : ℕ} (h : n < 16) : digitValue? 16 (hexDigit n) = some n := by
  have hall : ∀ n < 16, digitValue? 16 (hexDigit n) = some n := by decide
  exact hall n h

/-- One more digit behind a number. -/
def addDigit (acc : Option ℕ) (b : UInt8) : Option ℕ := do return (← acc) * 16 + (← digitValue? 16 b)

theorem foldl_hexByte (b : UInt8) (n : ℕ) :
    (hexByte b).foldl addDigit (some n) = some (n * 256 + b.toNat) := by
  have hb := b.toNat_lt
  rw [hexByte_eq, List.foldl_cons, List.foldl_cons, List.foldl_nil]
  simp only [addDigit, Option.bind_eq_bind, Option.bind_some,
    digitValue?_hexDigit (show b.toNat / 16 < 16 by omega),
    digitValue?_hexDigit (show b.toNat % 16 < 16 by omega), Option.pure_def, Option.some.injEq]
  omega

theorem hexOf_succ (k n : ℕ) :
    hexOf (k + 1) n = hexByte (UInt8.ofNat (n / 256 ^ k % 256)) ++ hexOf k n := by
  simp only [hexOf, hex, List.range_succ, List.reverse_append, List.reverse_singleton,
    List.singleton_append, List.map_cons, List.flatMap_cons, Nat.pow_eq]

theorem foldl_hexOf (k n m : ℕ) :
    (hexOf k n).foldl addDigit (some m) = some (m * 256 ^ k + n % 256 ^ k) := by
  induction k generalizing m with
  | zero => simp [hexOf, hex, Nat.mod_one]
  | succ k ih =>
    rw [hexOf_succ, List.foldl_append, foldl_hexByte, ih,
      UInt8.toNat_ofNat_of_lt' (Nat.mod_lt _ (by norm_num)), Nat.mod_pow_succ]
    congr 1
    ring

theorem length_hexOf (k n : ℕ) : (hexOf k n).length = 2 * k := by
  induction k with
  | zero => rfl
  | succ k ih =>
    rw [hexOf_succ, List.length_append, ih, hexByte_eq, List.length_cons, List.length_singleton]
    omega

theorem digits?_hexOf {k n : ℕ} (hk : 0 < k) (hn : n < 256 ^ k) : digits? 16 (hexOf k n) = some n := by
  have hne : hexOf k n ≠ [] := by
    rw [← List.length_pos_iff, length_hexOf]
    omega
  have hfold := foldl_hexOf k n 0
  rw [Nat.zero_mul, Nat.zero_add, Nat.mod_eq_of_lt hn] at hfold
  rw [digits?, List.isEmpty_eq_false_iff.2 hne]
  exact hfold

/-! ### Reading a piece -/

/-- The number that the first `2 * k` hexadecimal digits of a text stand for, and the rest. -/
def hexNumber? (k : ℕ) (t : Text) : Option (ℕ × Text) :=
  (digits? 16 (t.take (2 * k))).map (·, t.drop (2 * k))

theorem hexNumber?_hexOf {k n : ℕ} (hk : 0 < k) (hn : n < 256 ^ k) (t : Text) :
    hexNumber? k (hexOf k n ++ t) = some (n, t) := by
  have hlen := length_hexOf k n
  rw [hexNumber?, List.take_left' hlen, List.drop_left' hlen, digits?_hexOf hk hn]
  rfl

/-- The character that a letter stands for behind a backslash; what is no such letter stands for
itself. -/
def lettered (b : UInt8) : ℕ :=
  ((List.range 14).find? fun n => (controlLetter? n).map byte == some b).getD b.toNat

/-- The piece that stands behind a backslash, and the rest. -/
def escaped? : Text → Option (Piece × Text)
  | [] => none
  | b :: t =>
    if b = byte 'x' then
      (hexNumber? 1 t).map fun (n, r) =>
        (if n < 0x80 then .char (Char.ofNat n) else .stray (UInt8.ofNat n), r)
    else if b = byte 'u' then (hexNumber? 2 t).map fun (n, r) => (.char (Char.ofNat n), r)
    else if b = byte 'U' then (hexNumber? 4 t).map fun (n, r) => (.char (Char.ofNat n), r)
    else some (.char (Char.ofNat (lettered b)), t)

/-- The piece that the front of a quoted text stands for, and the rest. -/
def unquoted? (t : Text) : Option (Piece × Text) :=
  match front? t with
  | none => none
  | some (c, r) => if c = '\\' then escaped? r else some (.char c, r)

theorem unquoted?_encode {c : Char} (hc : c ≠ '\\') (t : Text) :
    unquoted? (encode c ++ t) = some (.char c, t) := by
  rw [unquoted?, front?_encode]
  exact if_neg hc

theorem unquoted?_backslash (t : Text) : unquoted? (byte '\\' :: t) = escaped? t := by
  have hfront : front? (byte '\\' :: t) = some ('\\', t) := front?_encode '\\' t
  rw [unquoted?, hfront]
  rfl

theorem escaped?_letter {b : UInt8} (hx : b ≠ byte 'x') (hu : b ≠ byte 'u') (hU : b ≠ byte 'U')
    (t : Text) : escaped? (b :: t) = some (.char (Char.ofNat (lettered b)), t) := by
  rw [escaped?, if_neg hx, if_neg hu, if_neg hU]

/-- Every control letter is the letter of one character, and none announces a number. -/
theorem lettered_controlLetter? {n : ℕ} {letter : Char} (h : controlLetter? n = some letter) :
    lettered (byte letter) = n ∧ byte letter ≠ byte 'x' ∧ byte letter ≠ byte 'u' ∧
      byte letter ≠ byte 'U' := by
  unfold controlLetter? at h
  split at h
  case h_8 => cases h
  all_goals
    obtain rfl := Option.some.inj h
    decide +kernel

theorem unquoted?_quoteChar (c : Char) (t : Text) :
    unquoted? (quoteChar c ++ t) = some (.char c, t) := by
  have hself : Char.ofNat c.toNat = c := Char.ofNat_toNat c
  have hmax := Utf8.toNat_lt c
  unfold quoteChar
  dsimp only
  split
  · -- a quote or a backslash stands for itself
    rename_i hc
    rw [List.cons_append, List.singleton_append, unquoted?_backslash]
    rcases hc with rfl | rfl <;> rfl
  · rename_i hc
    rw [not_or] at hc
    split
    · exact unquoted?_encode hc.2 t
    · split
      · rename_i letter hletter
        -- a control character with a letter of its own
        obtain ⟨hback, hx, hu, hU⟩ := lettered_controlLetter? hletter
        rw [List.cons_append, List.singleton_append, unquoted?_backslash, escaped?_letter hx hu hU,
          hback, hself]
      · -- a number tells by its marker how many digits it has
        split
        · rename_i hsmall
          have hread := hexNumber?_hexOf one_pos (show c.toNat < 256 ^ 1 by omega) t
          have hascii : c.toNat < 0x80 := by omega
          change unquoted? (byte '\\' :: byte 'x' :: (hexOf 1 c.toNat ++ t)) = _
          rw [unquoted?_backslash, escaped?, if_pos rfl, hread]
          simp only [Option.map_some, hascii, if_true, hself]
        · split
          · rename_i hwide
            have hread := hexNumber?_hexOf two_pos (show c.toNat < 256 ^ 2 by omega) t
            change unquoted? (byte '\\' :: byte 'u' :: (hexOf 2 c.toNat ++ t)) = _
            rw [unquoted?_backslash, escaped?, if_neg (by decide), if_pos rfl, hread]
            simp only [Option.map_some, hself]
          · have hread := hexNumber?_hexOf four_pos (show c.toNat < 256 ^ 4 by omega) t
            change unquoted? (byte '\\' :: byte 'U' :: (hexOf 4 c.toNat ++ t)) = _
            rw [unquoted?_backslash, escaped?, if_neg (by decide), if_neg (by decide), if_pos rfl,
              hread]
            simp only [Option.map_some, hself]

theorem unquoted?_stray {b : UInt8} (hb : 0x80 ≤ b.toNat) (t : Text) :
    unquoted? (quotePiece (.stray b) ++ t) = some (.stray b, t) := by
  have hhex : hexByte b = hexOf 1 b.toNat := by
    rw [hexOf_succ, Nat.pow_zero, Nat.div_one, Nat.mod_eq_of_lt b.toNat_lt, UInt8.ofNat_toNat]
    exact (List.append_nil _).symm
  have hread := hexNumber?_hexOf one_pos (show b.toNat < 256 ^ 1 from b.toNat_lt) t
  rw [quotePiece, hhex]
  change unquoted? (byte '\\' :: byte 'x' :: (hexOf 1 b.toNat ++ t)) = _
  rw [unquoted?_backslash, escaped?, if_pos rfl, hread]
  simp only [Option.map_some, if_neg (Nat.not_lt.2 hb), UInt8.ofNat_toNat]

/-- **A piece of a text is read back from between quotes, whatever follows it.** -/
theorem unquoted?_quotePiece {p : Piece} (hp : ∀ b, p = .stray b → 0x80 ≤ b.toNat) (t : Text) :
    unquoted? (quotePiece p ++ t) = some (p, t) := by
  cases p with
  | char c => exact unquoted?_quoteChar c t
  | stray b => exact unquoted?_stray (hp b rfl) t

theorem quotePiece_append_ne {p : Piece} (hp : ∀ b, p = .stray b → 0x80 ≤ b.toNat) (s t : Text) :
    quotePiece p ++ s ≠ byte '"' :: t := by
  intro h
  have hread := unquoted?_quotePiece hp s
  have hquote : unquoted? (byte '"' :: t) = some (.char '"', t) :=
    unquoted?_encode (c := '"') (by decide) t
  rw [h, hquote, Option.some.injEq, Prod.mk.injEq] at hread
  obtain ⟨rfl, rfl⟩ := hread
  exact absurd (List.cons.inj h).1 (by decide)

/-! ### Quoted texts -/

theorem flatMap_quotePiece_inj {ps qs : List Piece} (hps : ∀ b, .stray b ∈ ps → 0x80 ≤ b.toNat)
    (hqs : ∀ b, .stray b ∈ qs → 0x80 ≤ b.toNat) {s t : Text}
    (h : ps.flatMap quotePiece ++ byte '"' :: s = qs.flatMap quotePiece ++ byte '"' :: t) :
    ps = qs ∧ s = t := by
  induction ps generalizing qs with
  | nil =>
    cases qs with
    | nil => exact ⟨rfl, (List.cons.inj h).2⟩
    | cons q qs =>
      rw [List.flatMap_cons, List.append_assoc] at h
      exact absurd h.symm (quotePiece_append_ne (fun b hb => hqs b (hb ▸ List.mem_cons_self)) _ _)
  | cons p ps ih =>
    have hp : ∀ b, p = .stray b → 0x80 ≤ b.toNat := fun b hb => hps b (hb ▸ List.mem_cons_self)
    cases qs with
    | nil =>
      rw [List.flatMap_cons, List.append_assoc] at h
      exact absurd h (quotePiece_append_ne hp _ _)
    | cons q qs =>
      have hq : ∀ b, q = .stray b → 0x80 ≤ b.toNat := fun b hb => hqs b (hb ▸ List.mem_cons_self)
      rw [List.flatMap_cons, List.flatMap_cons, List.append_assoc, List.append_assoc] at h
      have hread := unquoted?_quotePiece hp (ps.flatMap quotePiece ++ byte '"' :: s)
      rw [h, unquoted?_quotePiece hq, Option.some.injEq, Prod.mk.injEq] at hread
      obtain ⟨rfl, hrest⟩ := hread
      obtain ⟨rfl, rfl⟩ := ih (fun b hb => hps b (List.mem_cons_of_mem _ hb))
        (fun b hb => hqs b (List.mem_cons_of_mem _ hb)) hrest.symm
      exact ⟨rfl, rfl⟩

theorem quoted_append (t s : Text) :
    quoted t ++ s = byte '"' :: ((pieces t).flatMap quotePiece ++ byte '"' :: s) := by
  rw [quoted, List.append_assoc, List.append_assoc]
  rfl

/-- **A quoted text shows which text it quotes and where it ends.** -/
theorem quoted_append_inj {t u s r : Text} (h : quoted t ++ s = quoted u ++ r) : t = u ∧ s = r := by
  rw [quoted_append, quoted_append] at h
  obtain ⟨hpieces, hrest⟩ := flatMap_quotePiece_inj (fun _ => le_of_stray_mem)
    (fun _ => le_of_stray_mem) (List.cons.inj h).2
  rw [← ofPieces_pieces t, ← ofPieces_pieces u, hpieces]
  exact ⟨rfl, hrest⟩

end Text

end MetricHistory
