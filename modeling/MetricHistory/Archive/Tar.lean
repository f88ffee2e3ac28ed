import MetricHistory.Archive.Extract

/-!
# Tape archives

The byte format of archives: a header block for each entry, followed by its content in whole
blocks, and two empty blocks at the end.

`Tar.read` gives the entries up to the end of the archive or to the first block that makes no
sense, and whether there is such a block.
-/

namespace MetricHistory

namespace Tar

/-- The length of a block. -/
def blockSize : Nat := 512

/-- The bytes of a header field, up to its first zero byte. -/
def field (block : Text) (start length : Nat) : Text :=
  ((block.drop start).take length).takeWhile (· != 0)

/-- The number in a header field, in octal digits that may have blanks around them. -/
def number? (block : Text) (start length : Nat) : Option Nat :=
  let isPadding (b : UInt8) : Bool := b == 32 || b == 0
  let raw := ((block.drop start).take length).dropWhile isPadding
  let digits := (raw.reverse.dropWhile isPadding).reverse
  if digits.isEmpty then some 0 else Text.digits? 8 digits

/-- The sum that a header is checked by: its bytes, with blanks for the sum itself. -/
def checksum (block : Text) : Nat :=
  let kept := block.take 148 ++ List.replicate 8 32 ++ block.drop 156
  (kept.map UInt8.toNat).foldl (· + ·) 0

/-- What a header says. -/
structure Header where
  name : Text
  mode : Nat
  size : Nat
  flag : UInt8
  link : Text

/-- Reads a header block. -/
def header? (block : Text) : Option Header := do
  let sum ← number? block 148 8
  if sum != checksum block then none
  else
    let name := field block 0 100
    let front := if field block 257 5 == Text.ofString "ustar" then field block 345 155 else []
    some {
      name := if front.isEmpty then name else front ++ "/" ++ name
      mode := ← number? block 100 8
      size := ← number? block 124 12
      flag := (block.drop 156).headD 0
      link := field block 157 100 }

/-- The kind of entry that a header flag stands for. -/
def kindOf (h : Header) : EntryKind :=
  if h.flag = 0 then if h.name.endsWith "/" then .directory else .file
  else if h.flag = Text.byte '0' then .file
  else if h.flag = Text.byte '5' then .directory
  else if h.flag = Text.byte '2' then .symlink
  else .special

/-- The longer names that extension headers give to the entry after them. -/
structure Names where
  name : Option Text := none
  link : Option Text := none

/-- Reads the records `length key=value` of an extension header.  `fuel` bounds their number. -/
def records : Nat → Text → List (Text × Text)
  | 0, _ => []
  | fuel + 1, t =>
    match t.cut? 32 with
    | none => []
    | some (digits, rest) =>
      match Text.nat? digits with
      | none => []
      | some n =>
        let own : Text := (rest.take (n - digits.length - 1)).dropLast
        match own.cut? (Text.byte '=') with
        | none => []
        | some (key, value) => (key, value) :: records fuel (t.drop n)

/-- The names after an extension header. -/
def Names.after (names : Names) (h : Header) (content : Text) : Option Names :=
  if h.flag = Text.byte 'x' then
    let rs := records content.length content
    some {
      name := (rs.lookup (Text.ofString "path")).or names.name
      link := (rs.lookup (Text.ofString "linkpath")).or names.link }
  else if h.flag = Text.byte 'L' then some { names with name := some (content.takeWhile (· != 0)) }
  else if h.flag = Text.byte 'K' then some { names with link := some (content.takeWhile (· != 0)) }
  else none

/-- The entry of a header. -/
def entry (names : Names) (h : Header) (content : Text) : ArchiveEntry :=
  let h := { h with name := names.name.getD h.name, link := names.link.getD h.link }
  { kind := kindOf h, name := h.name, link := h.link, mode := h.mode, content }

/-- The entries from a block on, and whether the archive is sound up to its end.  `fuel` bounds
the number of blocks. -/
def readFrom : Nat → Names → Text → List ArchiveEntry × Bool
  | 0, _, _ => ([], true)
  | fuel + 1, names, t =>
    if t.isEmpty then ([], true)
    else if t.length < blockSize then ([], false)
    else
      let block := t.take blockSize
      let rest := t.drop blockSize
      if block.all (· == 0) then
        ([], rest.isEmpty || (blockSize ≤ rest.length && (rest.take blockSize).all (· == 0)))
      else
        match header? block with
        | none => ([], false)
        | some h =>
          if rest.length < h.size then ([], false)
          else
            let content := rest.take h.size
            let next := rest.drop ((h.size + blockSize - 1) / blockSize * blockSize)
            match names.after h content with
            | some names => readFrom fuel names next
            | none =>
              let (entries, sound) := readFrom fuel {} next
              (entry names h content :: entries, sound)

/-- The entries of an archive, and whether it is sound up to its end. -/
def read (t : Text) : List ArchiveEntry × Bool := readFrom (t.length / blockSize + 1) {} t

/-- Unpacks the bytes of an archive. -/
def extract (dest t : Text) : FileTask Unit := do
  let (entries, sound) := read t
  Archive.extract dest entries
  if !sound then throw (.other "archive/tar: invalid tar header")

end Tar

end MetricHistory
