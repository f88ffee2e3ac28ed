import MetricHistory.Json.Basic
import MetricHistory.Proofs.Json.Literal
import MetricHistory.Proofs.Text.Utf8

/-!
# String literals and what they stand for

* `Literal.unescape_escape` : the literal of a text stands for the text, repaired;
* `Json.unescape_markupSafeBody` : a literal made safe for markup stands for the same text.

Both go over the units of a literal: `Literal.unescaped` reads them one after the other.
-/

namespace MetricHistory

namespace Literal

variable {t u r : Text} {b e : UInt8}

/-! ### Reading a literal -/

theorem length_of_hex4? {n : ℕ} (h : hex4? t = some (n, r)) : t.length = r.length + 4 := by
  unfold hex4? at h
  split at h
  · simp only [Option.map_eq_some_iff, Prod.mk.injEq] at h
    obtain ⟨_, -, -, rfl⟩ := h
    rfl
  · simp at h

/-- The second half of a pair at the front of a text, and the rest. -/
def low? (t : Text) : Option (ℕ × Text) := do
  let t ← Text.after? "\\u" t
  let (m, t) ← hex4? t
  if isLowSurrogate m then some (m, t) else none

/-- The bytes that the body of a literal stands for. -/
def unescaped (t : Text) : Text := unescapeBytes t.length t

theorem length_of_after? {p : Text} (h : Text.after? p t = some r) : r.length ≤ t.length := by
  unfold Text.after? at h
  split at h
  · simp only [Option.some.injEq] at h
    rw [← h, List.length_drop]
    omega
  · simp at h

theorem length_of_low? {m : ℕ} (h : low? t = some (m, r)) : r.length < t.length := by
  simp only [low?, Option.bind_eq_bind, Option.bind_eq_some_iff, Prod.exists] at h
  obtain ⟨t₁, h₁, m', t₂, h₂, h₃⟩ := h
  split at h₃
  · simp only [Option.some.injEq, Prod.mk.injEq] at h₃
    obtain ⟨rfl, rfl⟩ := h₃
    have := length_of_after? h₁
    have := length_of_hex4? h₂
    omega
  · simp at h₃

@[simp] theorem unescapeBytes_nil (fuel : ℕ) : unescapeBytes fuel [] = [] := by
  cases fuel <;> rfl

theorem unescapeBytes_plain (hb : b ≠ Text.byte '\\') (fuel : ℕ) (t : Text) :
    unescapeBytes (fuel + 1) (b :: t) = b :: unescapeBytes fuel t := by
  rw [unescapeBytes.eq_def]
  simp only [hb, if_false]

theorem unescapeBytes_short (he : e ≠ Text.byte 'u') (fuel : ℕ) (t : Text) :
    unescapeBytes (fuel + 1) (Text.byte '\\' :: e :: t) =
      (shortEscape? e).getD e :: unescapeBytes fuel t := by
  rw [unescapeBytes.eq_def]
  simp only [he, if_true, if_false]

theorem low?_of_high {n : ℕ} (t : Text) :
    (do
      let t ← Text.after? "\\u" t
      let p ← hex4? t
      if isHighSurrogate n && isLowSurrogate p.1 then some (p.1, p.2) else none) =
      if isHighSurrogate n then low? t else none := by
  cases isHighSurrogate n with
  | true =>
    simp only [Bool.true_and]
    rfl
  | false =>
    simp only [Bool.false_and, Bool.false_eq_true, if_false, Option.bind_eq_bind]
    cases Text.after? "\\u" t with
    | none => rfl
    | some t =>
      rw [Option.bind_some]
      cases hex4? t <;> rfl

theorem unescapeBytes_unit {n : ℕ} (hn : hex4? t = some (n, r))
    (hlow : (if isHighSurrogate n then low? r else none) = none) (fuel : ℕ) :
    unescapeBytes (fuel + 1) (Text.byte '\\' :: Text.byte 'u' :: t) =
      Utf8.encode (unitChar n) ++ unescapeBytes fuel r := by
  rw [unescapeBytes.eq_def]
  simp only [if_true, hn]
  rw [low?_of_high, hlow]

theorem unescapeBytes_pair {n m : ℕ} {u : Text} (hn : hex4? t = some (n, r))
    (hlow : (if isHighSurrogate n then low? r else none) = some (m, u)) (fuel : ℕ) :
    unescapeBytes (fuel + 1) (Text.byte '\\' :: Text.byte 'u' :: t) =
      Utf8.encode (Char.ofNat (0x10000 + (n - 0xD800) * 0x400 + (m - 0xDC00))) ++
        unescapeBytes fuel u := by
  rw [unescapeBytes.eq_def]
  simp only [if_true, hn]
  rw [low?_of_high, hlow]

theorem hex4?_of_digits {w x y z : UInt8} {n : ℕ} (h : Text.digits? 16 [w, x, y, z] = some n)
    (t : Text) : hex4? (w :: x :: y :: z :: t) = some (n, t) := by
  rw [hex4?, h]
  rfl

theorem unescapeBytes_append {a : Text} (ha : ∀ b ∈ a, b ≠ Text.byte '\\') (fuel : ℕ) (t : Text) :
    unescapeBytes (a.length + fuel) (a ++ t) = a ++ unescapeBytes fuel t := by
  induction a with
  | nil => simp
  | cons b a ih =>
    have hlen : (b :: a).length + fuel = a.length + fuel + 1 := by
      rw [List.length_cons]
      omega
    rw [hlen, List.cons_append, unescapeBytes_plain (ha b List.mem_cons_self),
      ih fun c hc => ha c (List.mem_cons_of_mem b hc)]
    rfl

/-! ### Respelling -/

/-- The characters that are spelled as escapes in a text made safe for markup. -/
def markup : List Char := ['<', '>', '&', '\u2028', '\u2029']

/-- The second body is the first one, with some characters spelled as escapes. -/
inductive Respelled : Text → Text → Prop
  | nil : Respelled [] []
  | plain {b : UInt8} {t u : Text} (h₁ : b ≠ Text.byte '"') (h₂ : ¬ b < 32)
      (h₃ : b ≠ Text.byte '\\') (h : Respelled t u) : Respelled (b :: t) (b :: u)
  | short {e : UInt8} {t u : Text} (he : (shortEscape? e).isSome = true) (h : Respelled t u) :
      Respelled (Text.byte '\\' :: e :: t) (Text.byte '\\' :: e :: u)
  | unit {w x y z : UInt8} {t u : Text} (hd : (Text.digits? 16 [w, x, y, z]).isSome = true)
      (h : Respelled t u) :
      Respelled (Text.byte '\\' :: Text.byte 'u' :: w :: x :: y :: z :: t)
        (Text.byte '\\' :: Text.byte 'u' :: w :: x :: y :: z :: u)
  | markup {c : Char} {t u : Text} (hc : c ∈ markup) (h : Respelled t u) :
      Respelled (Utf8.encode c ++ t) (escapeChar true c ++ u)

theorem IsBody.respelled (h : IsBody t) : Respelled t t := by
  induction h with
  | nil => exact .nil
  | plain h₁ h₂ h₃ _ ih => exact .plain h₁ h₂ h₃ ih
  | short he _ ih => exact .short he ih
  | unit hd _ ih => exact .unit hd ih

/-- The escape of a markup character has four hexadecimal digits that give the character. -/
theorem escapeChar_of_mem_markup {c : Char} (hc : c ∈ markup) :
    ∃ w x y z : UInt8, escapeChar true c = [Text.byte '\\', Text.byte 'u', w, x, y, z] ∧
      Text.digits? 16 [w, x, y, z] = some c.toNat ∧ unitChar c.toNat = c ∧
        isHighSurrogate c.toNat = false ∧ isLowSurrogate c.toNat = false ∧
          ∀ b ∈ Utf8.encode c, b ≠ Text.byte '"' ∧ ¬ b < 32 ∧ b ≠ Text.byte '\\' := by
  simp only [markup, List.mem_cons, List.not_mem_nil, or_false] at hc
  rcases hc with rfl | rfl | rfl | rfl | rfl
  · exact ⟨48, 48, 51, 99, by decide, by decide, by decide, by decide, by decide,
      by decide +kernel⟩
  · exact ⟨48, 48, 51, 101, by decide, by decide, by decide, by decide, by decide,
      by decide +kernel⟩
  · exact ⟨48, 48, 50, 54, by decide, by decide, by decide, by decide, by decide,
      by decide +kernel⟩
  · exact ⟨50, 48, 50, 56, by decide, by decide, by decide, by decide, by decide,
      by decide +kernel⟩
  · exact ⟨50, 48, 50, 57, by decide, by decide, by decide, by decide, by decide,
      by decide +kernel⟩

theorem Respelled.isBody (h : Respelled t u) : IsBody u := by
  induction h with
  | nil => exact .nil
  | plain h₁ h₂ h₃ _ ih => exact .plain h₁ h₂ h₃ ih
  | short he _ ih => exact .short he ih
  | unit hd _ ih => exact .unit hd ih
  | markup hc _ ih =>
    obtain ⟨w, x, y, z, he, hd, -⟩ := escapeChar_of_mem_markup hc
    rw [he]
    exact .unit (by rw [hd]; rfl) ih

theorem low?_of_ne (hb : b ≠ Text.byte '\\') (t : Text) : low? (b :: t) = none := by
  have : Text.after? "\\u" (b :: t) = none := by
    have hp : Text.startsWith (b :: t) "\\u" = false := by
      change (Text.byte '\\' == b && _) = false
      rw [Bool.and_eq_false_iff]
      exact .inl (by simpa using Ne.symm hb)
    rw [Text.after?, hp]
    rfl
  rw [low?, this]
  rfl

theorem low?_unit (t : Text) :
    low? (Text.byte '\\' :: Text.byte 'u' :: t) =
      (hex4? t).bind fun p => if isLowSurrogate p.1 then some (p.1, p.2) else none := rfl

theorem Respelled.low? (h : Respelled t u) :
    (Literal.low? t = none ∧ Literal.low? u = none) ∨
      ∃ m t' u', Literal.low? t = some (m, t') ∧ Literal.low? u = some (m, u') ∧
        Respelled t' u' := by
  cases h with
  | nil => exact .inl ⟨rfl, rfl⟩
  | plain _ _ h₃ _ => exact .inl ⟨low?_of_ne h₃ _, low?_of_ne h₃ _⟩
  | @short e t u he h =>
    have hu : e ≠ Text.byte 'u' := by
      rintro rfl
      exact absurd he (by decide)
    have hnone : ∀ t, Literal.low? (Text.byte '\\' :: e :: t) = none := by
      intro t
      have hp : Text.startsWith (Text.byte '\\' :: e :: t) "\\u" = false := by
        change (Text.byte '\\' == Text.byte '\\' && (Text.byte 'u' == e && _)) = false
        simp [Ne.symm hu]
      rw [Literal.low?, Text.after?, hp]
      rfl
    exact .inl ⟨hnone t, hnone u⟩
  | @unit w x y z t u hd h =>
    obtain ⟨n, hn⟩ := Option.isSome_iff_exists.1 hd
    rw [low?_unit, low?_unit, hex4?_of_digits hn, hex4?_of_digits hn]
    simp only [Option.bind_some]
    cases isLowSurrogate n with
    | true => exact .inr ⟨n, t, u, rfl, rfl, h⟩
    | false => exact .inl ⟨rfl, rfl⟩
  | @markup c t u hc h =>
    obtain ⟨w, x, y, z, he, hd, -, -, hlow, hplain⟩ := escapeChar_of_mem_markup hc
    refine .inl ⟨?_, ?_⟩
    · cases hbytes : Utf8.encode c with
      | nil => exact absurd hbytes (Utf8.encode_ne_nil c)
      | cons b a => exact low?_of_ne (hplain b (by rw [hbytes]; exact List.mem_cons_self)).2.2 _
    · rw [he]
      change Literal.low? (Text.byte '\\' :: Text.byte 'u' :: w :: x :: y :: z :: u) = none
      rw [low?_unit, hex4?_of_digits hd]
      simp [hlow]

/-- The escape of one unit stands for the same bytes in both spellings when shorter texts do.  A pair
is read as one character, so it is the text behind its second half that counts then. -/
theorem Respelled.unescapeBytes_unit_eq {w x y z : UInt8} {n f g : ℕ} (h : Respelled t u)
    (hn : Text.digits? 16 [w, x, y, z] = some n)
    (ih : ∀ t' u', t'.length ≤ t.length → u'.length ≤ u.length → Respelled t' u' →
      unescapeBytes f t' = unescapeBytes g u') :
    unescapeBytes (f + 1) (Text.byte '\\' :: Text.byte 'u' :: w :: x :: y :: z :: t) =
      unescapeBytes (g + 1) (Text.byte '\\' :: Text.byte 'u' :: w :: x :: y :: z :: u) := by
  have hrest := ih t u (Nat.le_refl _) (Nat.le_refl _) h
  by_cases hhigh : isHighSurrogate n = true
  · rcases h.low? with ⟨h₁, h₂⟩ | ⟨m, t', u', h₁, h₂, h'⟩
    · rw [unescapeBytes_unit (hex4?_of_digits hn t) (by rw [if_pos hhigh, h₁]),
        unescapeBytes_unit (hex4?_of_digits hn u) (by rw [if_pos hhigh, h₂]), hrest]
    · have hlen₁ := length_of_low? h₁
      have hlen₂ := length_of_low? h₂
      rw [unescapeBytes_pair (hex4?_of_digits hn t) (by rw [if_pos hhigh, h₁]),
        unescapeBytes_pair (hex4?_of_digits hn u) (by rw [if_pos hhigh, h₂]),
        ih t' u' (by omega) (by omega) h']
  · rw [unescapeBytes_unit (hex4?_of_digits hn t) (by rw [if_neg hhigh]),
      unescapeBytes_unit (hex4?_of_digits hn u) (by rw [if_neg hhigh]), hrest]

/-- **Both spellings stand for the same bytes**, and more fuel than needed changes nothing. -/
theorem Respelled.unescapeBytes_eq {f g : ℕ} (h : Respelled t u) (hf : t.length ≤ f)
    (hg : u.length ≤ g) : unescapeBytes f t = unescapeBytes g u := by
  -- the induction is on the length: the second half of a pair is an escape of its own
  induction hk : t.length using Nat.strongRecOn generalizing t u f g with
  | ind k ih =>
    cases h with
    | nil => simp
    | @plain b t u h₁ h₂ h₃ h =>
      simp only [List.length_cons] at hf hg hk
      obtain ⟨f, rfl⟩ := Nat.exists_eq_add_of_le' (Nat.le_trans (Nat.le_add_left 1 _) hf)
      obtain ⟨g, rfl⟩ := Nat.exists_eq_add_of_le' (Nat.le_trans (Nat.le_add_left 1 _) hg)
      have hrest : unescapeBytes f t = unescapeBytes g u :=
        ih t.length (by omega) h (by omega) (by omega) rfl
      rw [unescapeBytes_plain h₃, unescapeBytes_plain h₃, hrest]
    | @short e t u he h =>
      have hu : e ≠ Text.byte 'u' := by
        rintro rfl
        exact absurd he (by decide)
      simp only [List.length_cons] at hf hg hk
      obtain ⟨f, rfl⟩ : ∃ f', f = f' + 1 := ⟨f - 1, by omega⟩
      obtain ⟨g, rfl⟩ : ∃ g', g = g' + 1 := ⟨g - 1, by omega⟩
      have hrest : unescapeBytes f t = unescapeBytes g u :=
        ih t.length (by omega) h (by omega) (by omega) rfl
      rw [unescapeBytes_short hu, unescapeBytes_short hu, hrest]
    | @unit w x y z t u hd h =>
      obtain ⟨n, hn⟩ := Option.isSome_iff_exists.1 hd
      simp only [List.length_cons] at hf hg hk
      obtain ⟨f, rfl⟩ : ∃ f', f = f' + 1 := ⟨f - 1, by omega⟩
      obtain ⟨g, rfl⟩ : ∃ g', g = g' + 1 := ⟨g - 1, by omega⟩
      refine h.unescapeBytes_unit_eq hn fun t' u' ht hu h' => ?_
      exact ih t'.length (by omega) h' (by omega) (by omega) rfl
    | @markup c t u hc h =>
      obtain ⟨w, x, y, z, he, hd, hchar, hhigh, -, hplain⟩ := escapeChar_of_mem_markup hc
      have hpos : 0 < (Utf8.encode c).length := List.length_pos_iff.2 (Utf8.encode_ne_nil c)
      rw [List.length_append] at hf hk
      rw [he] at hg ⊢
      simp only [List.length_cons, List.length_append, List.length_nil] at hg
      obtain ⟨f, rfl⟩ : ∃ f', f = (Utf8.encode c).length + f' :=
        ⟨f - (Utf8.encode c).length, by omega⟩
      obtain ⟨g, rfl⟩ : ∃ g', g = g' + 1 := ⟨g - 1, by omega⟩
      have hrest : unescapeBytes f t = unescapeBytes g u :=
        ih t.length (by omega) h (by omega) (by omega) rfl
      have hright := unescapeBytes_unit (hex4?_of_digits hd u) (by rw [hhigh]; rfl) g
      rw [hchar] at hright
      rw [unescapeBytes_append fun b hb => (hplain b hb).2.2, hrest]
      exact hright.symm

theorem Respelled.unescape_eq (h : Respelled t u) : unescape u = unescape t := by
  rw [unescape, unescape, h.unescapeBytes_eq (Nat.le_refl _) (Nat.le_refl _)]

/-! ### Inside a literal -/

/-- A byte that a text made safe for markup keeps. -/
structure Kept (b : UInt8) : Prop where
  ascii : b.toNat < 0x80
  less : b.toNat ≠ 0x3c
  greater : b.toNat ≠ 0x3e
  ampersand : b.toNat ≠ 0x26

theorem kept_of_shortEscape? (h : (shortEscape? e).isSome = true) : Kept e := by
  have hmem : e ∈ [Text.byte '"', Text.byte '\\', Text.byte '/', Text.byte 'b', Text.byte 'f',
      Text.byte 'n', Text.byte 'r', Text.byte 't'] := by
    by_contra hno
    simp only [List.mem_cons, List.not_mem_nil, or_false, not_or] at hno
    obtain ⟨h₁, h₂, h₃, h₄, h₅, h₆, h₇, h₈⟩ := hno
    simp [shortEscape?, h₁, h₂, h₃, h₄, h₅, h₆, h₇, h₈] at h
  simp only [List.mem_cons, List.not_mem_nil, or_false] at hmem
  rcases hmem with rfl | rfl | rfl | rfl | rfl | rfl | rfl | rfl <;>
    exact ⟨by decide, by decide, by decide, by decide⟩

theorem kept_of_digitValue? (h : (Text.digitValue? 16 b).isSome = true) : Kept b := by
  unfold Text.digitValue? at h
  simp only at h
  by_cases hd : Text.isDigit b = true
  · simp only [Text.isDigit, Bool.and_eq_true, decide_eq_true_eq, UInt8.le_iff_toNat_le,
      UInt8.reduceToNat] at hd
    exact ⟨by omega, by omega, by omega, by omega⟩
  · rw [if_neg hd] at h
    by_cases hl : 97 ≤ Text.lowerByte b ∧ Text.lowerByte b ≤ 122
    · simp only [UInt8.le_iff_toNat_le, UInt8.reduceToNat] at hl
      unfold Text.lowerByte at hl
      split at hl
      · rename_i hb
        simp only [UInt8.le_iff_toNat_le, UInt8.reduceToNat] at hb
        exact ⟨by omega, by omega, by omega, by omega⟩
      · exact ⟨by omega, by omega, by omega, by omega⟩
    · rw [if_neg hl, if_neg (by omega)] at h
      simp at h

theorem kept_of_digits? {w x y z : UInt8} (h : (Text.digits? 16 [w, x, y, z]).isSome = true) :
    Kept w ∧ Kept x ∧ Kept y ∧ Kept z := by
  obtain ⟨n, hn⟩ := Option.isSome_iff_exists.1 h
  simp only [Text.digits?, List.isEmpty_cons, Bool.false_eq_true, if_false, List.foldl_cons,
    List.foldl_nil, Option.pure_def, Option.bind_eq_bind, Option.bind_eq_some_iff,
    Option.some.injEq] at hn
  obtain ⟨_, ⟨_, ⟨_, ⟨_, -, a, ha, -⟩, b, hb, -⟩, c, hc, -⟩, d, hd, -⟩ := hn
  exact ⟨kept_of_digitValue? (by rw [ha]; rfl), kept_of_digitValue? (by rw [hb]; rfl),
    kept_of_digitValue? (by rw [hc]; rfl), kept_of_digitValue? (by rw [hd]; rfl)⟩

theorem IsBody.of_cons (h : IsBody (b :: t)) (hb : b ≠ Text.byte '\\') :
    b ≠ Text.byte '"' ∧ ¬ b < 32 ∧ IsBody t := by
  cases h with
  | plain h₁ h₂ _ h => exact ⟨h₁, h₂, h⟩
  | short => exact absurd rfl hb
  | unit => exact absurd rfl hb

theorem IsBody.of_append {a : Text} (h : IsBody (a ++ t)) (ha : ∀ b ∈ a, b ≠ Text.byte '\\') :
    IsBody t ∧ ∀ u, Respelled t u → Respelled (a ++ t) (a ++ u) := by
  induction a with
  | nil => exact ⟨h, fun u hu => hu⟩
  | cons b a ih =>
    have hb := ha b List.mem_cons_self
    obtain ⟨h₁, h₂, h₃⟩ := IsBody.of_cons h hb
    obtain ⟨ht, hext⟩ := ih h₃ fun c hc => ha c (List.mem_cons_of_mem b hc)
    exact ⟨ht, fun u hu => .plain h₁ h₂ hb (hext u hu)⟩

end Literal

namespace Literal

variable {t u : Text} {b e : UInt8}

/-! ### Writing a literal -/

theorem unescaped_append {a : Text} (ha : ∀ b ∈ a, b ≠ Text.byte '\\') (u : Text) :
    unescaped (a ++ u) = a ++ unescaped u := by
  rw [unescaped, List.length_append, unescapeBytes_append ha, unescaped]

theorem IsBody.unescapeBytes_eq (h : IsBody u) {fuel : ℕ} (hf : u.length ≤ fuel) :
    unescapeBytes fuel u = unescaped u :=
  h.respelled.unescapeBytes_eq hf (Nat.le_refl _)

theorem unescaped_short (he : shortEscape? e = some b) (hu : IsBody u) :
    unescaped (Text.byte '\\' :: e :: u) = b :: unescaped u := by
  have hne : e ≠ Text.byte 'u' := by
    rintro rfl
    have hnone : shortEscape? (Text.byte 'u') = none := by decide
    rw [hnone] at he
    simp at he
  rw [unescaped, List.length_cons, unescapeBytes_short hne, he, Option.getD_some,
    hu.unescapeBytes_eq (by rw [List.length_cons]; omega)]

theorem unescaped_unit {w x y z : UInt8} {n : ℕ} (hn : Text.digits? 16 [w, x, y, z] = some n)
    (hhigh : isHighSurrogate n = false) (hu : IsBody u) :
    unescaped (Text.byte '\\' :: Text.byte 'u' :: w :: x :: y :: z :: u) =
      Utf8.encode (unitChar n) ++ unescaped u := by
  rw [unescaped, List.length_cons, unescapeBytes_unit (hex4?_of_digits hn u) (by rw [hhigh]; rfl),
    hu.unescapeBytes_eq (by simp only [List.length_cons]; omega)]

/-- A spelling of a character at the front of a body. -/
structure Stands (spelling : Text) (c : Char) : Prop where
  isBody : ∀ {u : Text}, IsBody u → IsBody (spelling ++ u)
  unescaped : ∀ {u : Text}, IsBody u → unescaped (spelling ++ u) = Utf8.encode c ++ unescaped u

theorem stands_short {c : Char} (he : shortEscape? e = some b) (hc : Utf8.encode c = [b]) :
    Stands [Text.byte '\\', e] c :=
  ⟨fun hu => .short (by rw [he]; rfl) hu, fun hu => by rw [hc]; exact unescaped_short he hu⟩

/-- The code units that are spelled with four digits. -/
def escapedUnits : List ℕ := List.range 32 ++ [0x26, 0x3c, 0x3e, 0x2028, 0x2029, 0xfffd]

theorem stands_unit {c : Char} (hc : c.toNat ∈ escapedUnits) :
    Stands ("\\u" ++ Text.hex [UInt8.ofNat (c.toNat / 256), UInt8.ofNat (c.toNat % 256)]) c := by
  have hall : ∀ n ∈ escapedUnits,
      Text.digits? 16 (Text.hex [UInt8.ofNat (n / 256), UInt8.ofNat (n % 256)]) = some n ∧
        isHighSurrogate n = false ∧ isLowSurrogate n = false := by
    decide +kernel
  obtain ⟨hd, hhigh, hlow⟩ := hall _ hc
  have hchar : unitChar c.toNat = c := by
    rw [unitChar, hhigh, hlow]
    exact Char.ofNat_toNat c
  refine ⟨fun hu => ?_, fun hu => ?_⟩
  · exact .unit (Option.isSome_iff_exists.2 ⟨_, hd⟩) hu
  · have := unescaped_unit hd hhigh hu
    rwa [hchar] at this

theorem stands_plain {c : Char} (h₁ : c ≠ '"') (h₂ : c ≠ '\\') (h₃ : ¬ c.toNat < 32) :
    Stands (Utf8.encode c) c := by
  have hbytes : ∀ b ∈ Utf8.encode c, b ≠ Text.byte '"' ∧ ¬ b < 32 ∧ b ≠ Text.byte '\\' := by
    intro b hb
    by_cases hascii : c.toNat < 0x80
    · rw [Utf8.encode_ascii hascii, List.mem_singleton] at hb
      have hn : b.toNat = c.toNat := by
        rw [hb, UInt8.toNat_ofNat_of_lt' (hascii.trans (by decide))]
      refine ⟨?_, ?_, ?_⟩
      · rintro rfl
        exact h₁ (Char.toNat_inj.1 hn.symm)
      · rw [UInt8.lt_iff_toNat_lt, hn]
        exact h₃
      · rintro rfl
        exact h₂ (Char.toNat_inj.1 hn.symm)
    · have hle := Utf8.le_of_mem_encode hascii hb
      refine ⟨?_, ?_, ?_⟩
      · rintro rfl
        exact absurd hle (by decide)
      · rw [UInt8.lt_iff_toNat_lt]
        change ¬ b.toNat < 32
        omega
      · rintro rfl
        exact absurd hle (by decide)
  refine ⟨fun {u} hu => ?_, fun {u} _ => unescaped_append (fun b hb => (hbytes b hb).2.2) u⟩
  generalize Utf8.encode c = a at hbytes
  induction a with
  | nil => exact hu
  | cons b a ih =>
    obtain ⟨h₁, h₂, h₃⟩ := hbytes b List.mem_cons_self
    exact .plain h₁ h₂ h₃ (ih fun d hd => hbytes d (List.mem_cons_of_mem b hd))

theorem stands_escapeChar (markupSafe : Bool) (c : Char) : Stands (escapeChar markupSafe c) c := by
  unfold escapeChar
  simp only
  split_ifs with h₁ h₂ h₃ h₄ h₅ h₆ h₇ h₈ h₉
  · subst h₁
    exact stands_short (b := Text.byte '"') (by decide) (by decide)
  · subst h₂
    exact stands_short (b := Text.byte '\\') (by decide) (by decide)
  · subst h₃
    exact stands_short (b := 10) (by decide) (by decide)
  · subst h₄
    exact stands_short (b := 13) (by decide) (by decide)
  · subst h₅
    exact stands_short (b := 9) (by decide) (by decide)
  · exact stands_short (b := 8) (by decide) (by rw [Utf8.encode_ascii (by omega), h₆]; rfl)
  · exact stands_short (b := 12) (by decide) (by rw [Utf8.encode_ascii (by omega), h₇]; rfl)
  · refine stands_unit ?_
    rw [escapedUnits, List.mem_append, List.mem_range]
    rcases h₈ with h | h | h
    · exact .inl h
    · exact .inr (by rw [h]; decide)
    · exact .inr (by rw [h]; decide)
  · refine stands_unit ?_
    simp only [Bool.and_eq_true, Bool.or_eq_true, beq_iff_eq] at h₉
    rcases h₉.2 with (h | h) | h
    · rw [h]; decide
    · rw [h]; decide
    · rw [h]; decide
  · exact stands_plain h₁ h₂ fun h => h₈ (.inl h)

theorem stands_escapePiece (markupSafe : Bool) (p : Utf8.Piece) :
    Stands (escapePiece markupSafe p) p.shown := by
  cases p with
  | char c => exact stands_escapeChar markupSafe c
  | stray b => exact stands_unit (c := Utf8.replacement) (by decide)

theorem escape_spec (markupSafe : Bool) (ps : List Utf8.Piece) :
    IsBody (ps.flatMap (escapePiece markupSafe)) ∧
      unescaped (ps.flatMap (escapePiece markupSafe)) = Utf8.ofChars (ps.map Utf8.Piece.shown) := by
  induction ps with
  | nil => exact ⟨.nil, rfl⟩
  | cons p ps ih =>
    have hp := stands_escapePiece markupSafe p
    rw [List.flatMap_cons]
    refine ⟨hp.isBody ih.1, ?_⟩
    rw [hp.unescaped ih.1, ih.2, List.map_cons, Utf8.ofChars, Utf8.ofChars, List.flatMap_cons]

theorem isBody_escape (markupSafe : Bool) (t : Text) : IsBody (escape markupSafe t) :=
  (escape_spec markupSafe _).1

/-- **The literal of a text stands for the text, repaired.** -/
theorem unescape_escape (markupSafe : Bool) (t : Text) :
    unescape (escape markupSafe t) = Utf8.repair t := by
  have h : unescaped (escape markupSafe t) = Utf8.repair t := (escape_spec markupSafe _).2
  rw [unescape, ← unescaped, h, Utf8.repair_repair]

end Literal

namespace Json

open Literal

variable {t r : Text} {c : Char} {b : UInt8}

@[simp] theorem markupSafeBody_nil : markupSafeBody [] = [] := by simp [markupSafeBody]

theorem markupSafeBody_encode (c : Char) (r : Text) :
    markupSafeBody (Utf8.encode c ++ r) =
      (if c ∈ markup then escapeChar true c else Utf8.encode c) ++ markupSafeBody r := by
  have hiff : (c = '<' ∨ c = '>' ∨ c = '&' ∨ c.toNat = 0x2028 ∨ c.toNat = 0x2029) ↔ c ∈ markup := by
    have h₁ : c.toNat = 0x2028 ↔ c = '\u2028' := ⟨fun h => Char.toNat_inj.1 h, fun h => h ▸ rfl⟩
    have h₂ : c.toNat = 0x2029 ↔ c = '\u2029' := ⟨fun h => Char.toNat_inj.1 h, fun h => h ▸ rfl⟩
    simp [markup, h₁, h₂]
  rw [markupSafeBody, Utf8.pieces_encode_append, List.flatMap_cons]
  simp only [hiff]
  rfl

theorem markupSafeBody_stray (h : Utf8.front? (b :: r) = none) :
    markupSafeBody (b :: r) = b :: markupSafeBody r := by
  rw [markupSafeBody, Utf8.pieces_of_stray h, List.flatMap_cons]
  rfl

theorem markupSafeBody_kept (h : Kept b) (r : Text) :
    markupSafeBody (b :: r) = b :: markupSafeBody r := by
  have hlt : b < 0x80 := UInt8.lt_iff_toNat_lt.2 h.ascii
  have hv : b.toNat.isValidChar := .inl (Nat.lt_trans h.ascii (by norm_num))
  generalize hc : Char.ofNatAux b.toNat hv = c
  have hn : c.toNat = b.toNat := by
    rw [← hc]
    simp [Char.ofNatAux, Char.toNat, UInt32.toNat]
  have hbytes : Utf8.encode c = [b] := by
    rw [Utf8.encode_ascii (hn ▸ h.ascii), hn, UInt8.ofNat_toNat]
  have hnot : c ∉ markup := by
    intro hmem
    have h₁ := h.ascii
    have h₂ := h.less
    have h₃ := h.greater
    have h₄ := h.ampersand
    rw [← hn] at h₁ h₂ h₃ h₄
    simp only [markup, List.mem_cons, List.not_mem_nil, or_false] at hmem
    rcases hmem with rfl | rfl | rfl | rfl | rfl
    · exact h₂ rfl
    · exact h₃ rfl
    · exact h₄ rfl
    · exact absurd h₁ (by decide)
    · exact absurd h₁ (by decide)
  have := markupSafeBody_encode c r
  rwa [hbytes, if_neg hnot] at this

/-- **Making a literal safe for markup respells it.** -/
theorem respelled_markupSafeBody (h : IsBody t) : Respelled t (markupSafeBody t) := by
  induction hk : t.length using Nat.strongRecOn generalizing t with
  | ind k ih =>
    cases h with
    | nil => rw [markupSafeBody_nil]; exact .nil
    | @short e t he h =>
      rw [markupSafeBody_kept ⟨by decide, by decide, by decide, by decide⟩,
        markupSafeBody_kept (kept_of_shortEscape? he)]
      exact .short he (ih t.length (by simp only [List.length_cons] at hk; omega) h rfl)
    | @unit w x y z t hd h =>
      obtain ⟨hw, hx, hy, hz⟩ := kept_of_digits? hd
      rw [markupSafeBody_kept ⟨by decide, by decide, by decide, by decide⟩,
        markupSafeBody_kept ⟨by decide, by decide, by decide, by decide⟩, markupSafeBody_kept hw,
        markupSafeBody_kept hx, markupSafeBody_kept hy, markupSafeBody_kept hz]
      exact .unit hd (ih t.length (by simp only [List.length_cons] at hk; omega) h rfl)
    | @plain b t h₁ h₂ h₃ h =>
      cases hf : Utf8.front? (b :: t) with
      | none =>
        rw [markupSafeBody_stray hf]
        exact .plain h₁ h₂ h₃ (ih t.length (by simp only [List.length_cons] at hk; omega) h rfl)
      | some p =>
        obtain ⟨c, r⟩ := p
        have hlen := Utf8.length_lt_of_front? hf
        have hbody : IsBody (b :: t) := .plain h₁ h₂ h₃ h
        have heq := Utf8.eq_encode_append hf
        -- no byte of the character is a backslash
        have hno : ∀ a ∈ Utf8.encode c, a ≠ Text.byte '\\' := by
          intro a ha
          by_cases hascii : c.toNat < 0x80
          · rw [Utf8.encode_ascii hascii] at heq ha
            simp only [List.cons_append, List.nil_append, List.cons.injEq] at heq
            rw [List.mem_singleton.1 ha, ← heq.1]
            exact h₃
          · rintro rfl
            exact absurd (Utf8.le_of_mem_encode hascii ha) (by decide)
        rw [heq] at hbody ⊢
        obtain ⟨hr, hext⟩ := hbody.of_append hno
        have hrest := ih r.length (by omega) hr rfl
        rw [markupSafeBody_encode]
        split
        · rename_i hm
          exact .markup hm hrest
        · exact hext _ hrest

theorem isBody_markupSafeBody (h : IsBody t) : IsBody (markupSafeBody t) :=
  (respelled_markupSafeBody h).isBody

/-- **A literal made safe for markup stands for the same text.** -/
theorem unescape_markupSafeBody (h : IsBody t) : unescape (markupSafeBody t) = unescape t :=
  (respelled_markupSafeBody h).unescape_eq

end Json

end MetricHistory
