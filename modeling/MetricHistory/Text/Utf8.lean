/-!
# UTF-8 over arbitrary bytes

Commit subjects, file names and analyzer output are byte strings that are usually, but not
always, UTF-8.

* `Utf8.encode` is the encoding of one character.
* `Utf8.front?` reads the character that stands at the front of a byte string, accepting
  exactly the well-formed sequences: no overlong form, no surrogate, nothing above U+10FFFF.
* `Utf8.pieces` cuts any byte string into characters and stray bytes, losing nothing.
-/

namespace MetricHistory

/-- A byte string.  Most texts are UTF-8, and none has to be. -/
abbrev Text := List UInt8

namespace Utf8

/-- The character that stands for a stray byte: U+FFFD. -/
def replacement : Char := '\uFFFD'

/-- A continuation byte carries six payload bits behind the marker `10`. -/
def continuation (n : Nat) : UInt8 := UInt8.ofNat (0x80 + n % 0x40)

/-- The UTF-8 encoding of one character, one to four bytes long. -/
def encode (c : Char) : Text :=
  let n := c.toNat
  if n < 0x80 then [UInt8.ofNat n]
  else if n < 0x800 then [UInt8.ofNat (0xC0 + n / 0x40), continuation n]
  else if n < 0x10000 then
    [UInt8.ofNat (0xE0 + n / 0x1000), continuation (n / 0x40), continuation n]
  else
    [UInt8.ofNat (0xF0 + n / 0x40000), continuation (n / 0x1000), continuation (n / 0x40),
      continuation n]

/-- The payload of a continuation byte, `none` for any other byte. -/
def payload? (b : UInt8) : Option Nat :=
  if 0x80 ≤ b ∧ b < 0xC0 then some (b.toNat - 0x80) else none

/-- The character with code point `n`, provided there is one and it is at least `low`, the
first that needs the length of sequence it was read from. -/
def charFrom? (low n : Nat) : Option Char :=
  if h : n.isValidChar then if low ≤ n then some (Char.ofNatAux n h) else none else none

/-- Reads the character at the front of `t`; `none` when `t` is empty or starts with a byte
that begins no well-formed sequence. -/
def front? : Text → Option (Char × Text)
  | [] => none
  | b :: t =>
    if b < 0x80 then (charFrom? 0 b.toNat).map (·, t)
    else if b < 0xE0 then
      match t with
      | c :: t => do
        let x ← payload? c
        let ch ← charFrom? 0x80 ((b.toNat - 0xC0) * 0x40 + x)
        some (ch, t)
      | _ => none
    else if b < 0xF0 then
      match t with
      | c :: d :: t => do
        let x ← payload? c
        let y ← payload? d
        let ch ← charFrom? 0x800 (((b.toNat - 0xE0) * 0x40 + x) * 0x40 + y)
        some (ch, t)
      | _ => none
    else
      match t with
      | c :: d :: e :: t => do
        let x ← payload? c
        let y ← payload? d
        let z ← payload? e
        let ch ← charFrom? 0x10000 ((((b.toNat - 0xF0) * 0x40 + x) * 0x40 + y) * 0x40 + z)
        some (ch, t)
      | _ => none

theorem length_lt_of_front? {t r : Text} {c : Char} (h : front? t = some (c, r)) :
    r.length < t.length := by
  unfold front? at h
  split at h
  · simp at h
  · rename_i b t
    split at h
    · simp only [Option.map_eq_some_iff, Prod.mk.injEq] at h
      obtain ⟨_, _, _, rfl⟩ := h
      simp
    · split at h
      · split at h
        · simp only [Option.bind_eq_bind, Option.bind_eq_some_iff, Option.some.injEq,
            Prod.mk.injEq] at h
          obtain ⟨x, -, ch, -, -, rfl⟩ := h
          simp only [List.length_cons]
          omega
        · simp at h
      · split at h
        · split at h
          · simp only [Option.bind_eq_bind, Option.bind_eq_some_iff, Option.some.injEq,
              Prod.mk.injEq] at h
            obtain ⟨x, -, y, -, ch, -, -, rfl⟩ := h
            simp only [List.length_cons]
            omega
          · simp at h
        · split at h
          · simp only [Option.bind_eq_bind, Option.bind_eq_some_iff, Option.some.injEq,
              Prod.mk.injEq] at h
            obtain ⟨x, -, y, -, z, -, ch, -, -, rfl⟩ := h
            simp only [List.length_cons]
            omega
          · simp at h

/-- What a byte string consists of: characters, and bytes that are part of none. -/
inductive Piece where
  | char (c : Char)
  | stray (b : UInt8)
deriving DecidableEq, Repr

namespace Piece

/-- The bytes of a piece. -/
def bytes : Piece → Text
  | char c => encode c
  | stray b => [b]

/-- The character shown for a piece; a stray byte shows as U+FFFD. -/
def shown : Piece → Char
  | char c => c
  | stray _ => replacement

end Piece

/-- Cuts a byte string into characters and stray bytes, from the front. -/
def pieces (t : Text) : List Piece :=
  match _h : front? t with
  | some (c, r) => .char c :: pieces r
  | none =>
    match t with
    | [] => []
    | b :: r => .stray b :: pieces r
termination_by t.length
decreasing_by
  · exact length_lt_of_front? _h
  · simp

/-- The bytes of a sequence of pieces. -/
def ofPieces (ps : List Piece) : Text := ps.flatMap Piece.bytes

/-- The characters shown for a byte string. -/
def chars (t : Text) : List Char := (pieces t).map Piece.shown

/-- The encoding of a sequence of characters. -/
def ofChars (cs : List Char) : Text := cs.flatMap encode

/-- A byte string is well-formed when no byte of it is stray. -/
def valid (t : Text) : Bool := (pieces t).all fun
  | .char _ => true
  | .stray _ => false

/-- The text with U+FFFD in the place of every stray byte. -/
def repair (t : Text) : Text := ofChars (chars t)

end Utf8

end MetricHistory
