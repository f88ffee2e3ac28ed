import MetricHistory.Text.Basic

/-!
# BLAKE3

The 256-bit BLAKE3 hash of a byte string.  The input is cut into chunks of 1024 bytes, which
are the leaves of a binary tree; each left subtree is full.

* `Blake3.compress` is the compression function.
* `Blake3.node` is the tree of an input, of which `Blake3.hash` takes the root.
-/

namespace MetricHistory

namespace Blake3

/-- The words every computation starts from. -/
def initial : Array UInt32 :=
  #[0x6A09E667, 0xBB67AE85, 0x3C6EF372, 0xA54FF53A, 0x510E527F, 0x9B05688C, 0x1F83D9AB, 0x5BE0CD19]

/-- The order in which a round takes the message words of the round before. -/
def permutation : Array Nat := #[2, 6, 3, 10, 7, 0, 4, 13, 1, 11, 12, 5, 9, 14, 15, 8]

/-- A word rotated to the right. -/
def rotate (x : UInt32) (n : UInt32) : UInt32 := (x >>> n) ||| (x <<< (32 - n))

/-- The word at an index, zero outside. -/
def word (ws : Array UInt32) (i : Nat) : UInt32 := ws.getD i 0

/-- Mixes two message words into four words of the state. -/
def mix (s : Array UInt32) (a b c d : Nat) (x y : UInt32) : Array UInt32 :=
  let va := word s a + word s b + x
  let vd := rotate (word s d ^^^ va) 16
  let vc := word s c + vd
  let vb := rotate (word s b ^^^ vc) 12
  let va := va + vb + y
  let vd := rotate (vd ^^^ va) 8
  let vc := vc + vd
  let vb := rotate (vb ^^^ vc) 7
  (((s.setIfInBounds a va).setIfInBounds b vb).setIfInBounds c vc).setIfInBounds d vd

/-- The columns and diagonals of the state in the order in which a round mixes them. -/
def quarters : List (Nat × Nat × Nat × Nat) :=
  [(0, 4, 8, 12), (1, 5, 9, 13), (2, 6, 10, 14), (3, 7, 11, 15),
   (0, 5, 10, 15), (1, 6, 11, 12), (2, 7, 8, 13), (3, 4, 9, 14)]

/-- One round: every column and every diagonal takes two message words. -/
def round (s m : Array UInt32) : Array UInt32 :=
  quarters.zipIdx.foldl
    (fun s ((a, b, c, d), i) => mix s a b c d (word m (2 * i)) (word m (2 * i + 1))) s

/-- The message words for the next round. -/
def permute (m : Array UInt32) : Array UInt32 := permutation.map (word m)

/-- Seven rounds, the message words permuted between them. -/
def rounds : Nat → Array UInt32 → Array UInt32 → Array UInt32
  | 0, s, _ => s
  | n + 1, s, m => rounds n (round s m) (permute m)

/-- What is known about a block before it is compressed. -/
structure Block where
  chaining : Array UInt32
  message : Array UInt32
  counter : Nat
  length : Nat
  flags : UInt32

/-- The first block of a chunk. -/
def chunkStart : UInt32 := 1

/-- The last block of a chunk. -/
def chunkEnd : UInt32 := 2

/-- A block that holds two chaining values. -/
def parentNode : UInt32 := 4

/-- The last block of all. -/
def root : UInt32 := 8

/-- The compression function, truncated to eight words. -/
def compress (b : Block) : Array UInt32 :=
  let s := b.chaining ++ initial.extract 0 4 ++
    #[UInt32.ofNat b.counter, UInt32.ofNat (b.counter / Nat.pow 2 32), UInt32.ofNat b.length, b.flags]
  let s := rounds 7 s b.message
  (Array.range 8).map fun i => word s i ^^^ word s (i + 8)

/-- Four bytes as a word, lowest byte first; missing bytes are zero. -/
def wordAt (t : Text) (i : Nat) : UInt32 :=
  let byteAt (k : Nat) : UInt32 := (t.getD (4 * i + k) 0).toUInt32
  byteAt 0 ||| (byteAt 1 <<< 8) ||| (byteAt 2 <<< 16) ||| (byteAt 3 <<< 24)

/-- The sixteen words of up to 64 bytes. -/
def blockWords (t : Text) : Array UInt32 := (Array.range 16).map (wordAt t)

/-- The last block of a chunk, all blocks before it compressed.  `fuel` bounds the number of
blocks. -/
def chunkBlock (counter : Nat) : Nat → Array UInt32 → UInt32 → Text → Block
  | 0, chaining, flags, t => ⟨chaining, blockWords t, counter, t.length, flags ||| chunkEnd⟩
  | fuel + 1, chaining, flags, t =>
    if t.length ≤ 64 then ⟨chaining, blockWords t, counter, t.length, flags ||| chunkEnd⟩
    else
      let head := t.take 64
      let next := compress ⟨chaining, blockWords head, counter, 64, flags⟩
      chunkBlock counter fuel next 0 (t.drop 64)

/-- The number of bytes of the left subtree: the greatest power of two of chunks that leaves
something for the right one. -/
def leftLength (n : Nat) : Nat := 1024 * Nat.pow 2 ((n - 1) / 1024).log2

theorem leftLength_pos (n : Nat) : 0 < leftLength n :=
  Nat.mul_pos (by decide) (Nat.pow_pos (by decide))

theorem leftLength_lt {n : Nat} (h : 1024 < n) : leftLength n < n := by
  have hk : (n - 1) / 1024 ≠ 0 := by omega
  have hle := Nat.log2_self_le hk
  rw [leftLength, Nat.pow_eq]
  omega

/-- The last block of the tree of an input whose first chunk has number `counter`. -/
def node (counter : Nat) (t : Text) : Block :=
  if _h : t.length ≤ 1024 then chunkBlock counter 16 initial chunkStart t
  else
    let n := leftLength t.length
    let left := compress (node counter (t.take n))
    let right := compress (node (counter + n / 1024) (t.drop n))
    ⟨initial, left ++ right, 0, 64, parentNode⟩
termination_by t.length
decreasing_by
  · have := leftLength_lt (Nat.lt_of_not_le _h)
    simp only [List.length_take]
    omega
  · have := leftLength_pos t.length
    simp only [List.length_drop]
    omega

/-- The four bytes of a word, lowest byte first. -/
def wordBytes (w : UInt32) : Text :=
  [w.toUInt8, (w >>> 8).toUInt8, (w >>> 16).toUInt8, (w >>> 24).toUInt8]

/-- The 32 bytes of the hash. -/
def hash (t : Text) : Text :=
  let b := node 0 t
  (compress { b with flags := b.flags ||| root }).toList.flatMap wordBytes

/-- The hash in hexadecimal notation. -/
def hashHex (t : Text) : Text := (hash t).hex

end Blake3

end MetricHistory
