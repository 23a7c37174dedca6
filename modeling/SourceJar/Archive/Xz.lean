import SourceJar.Archive.Crc32
import SourceJar.Archive.Crc64
import SourceJar.Archive.LittleEndian
import SourceJar.Archive.Lzma.Chunks
import SourceJar.Archive.Sha256
import SourceJar.Archive.Xz.Filter

/-!
Restoring bytes from blocks with an index.

A header says how blocks are checked. Each block has a header of its own, with the filters that its
bytes went through, then chunks, zeros up to a multiple of four bytes, and a checksum. After the blocks
an index repeats their sizes, and a footer repeats the header and gives the size of the index. All
parts have checksums, all must fit, and nothing may follow the footer.
-/

namespace SourceJar.Archive.Xz

/-- Reads a number with seven bits to a byte, the lowest first, from at most `most` bytes. It must not
be longer than it needs to be. -/
def numberOf : (most : Nat) → (first : Bool) → ByteReader Nat
  | 0, _ => failure
  | most + 1, first => do
    let b ← ByteReader.byte
    if b < 0x80 then
      guard (b ≠ 0 || first)
      return b.toNat
    else return b.toNat - 0x80 + 128 * (← numberOf most false)

/-- Reads a number of any size. -/
def number : ByteReader Nat := numberOf 9 true

/-- Reads a piece together with the bytes that it was read from. -/
def withBytes {α : Type} (reader : ByteReader α) : ByteReader (α × Bytes) := do
  let before ← get
  let value ← reader
  let after ← get
  return (value, before.take (before.length - after.length))

/-- Reads zeros after `length` bytes, up to a multiple of four. -/
def zeros (length : Nat) : ByteReader Unit := do
  let bytes ← ByteReader.take ((4 - length % 4) % 4)
  guard (bytes.all (· = 0))

/-- Reads the checksum of some bytes. -/
def checkedBy (bytes : Bytes) : ByteReader Unit := do
  guard ((← ByteReader.number 4) = (crc32 bytes).toNat)

/-! ## Checks of blocks -/

/-- How long the check of a kind is. -/
def checkLength (kind : Nat) : Nat := if kind = 0 then 0 else 4 * twoTo ((kind - 1) / 3)

/-- The check of a kind, for kinds that are known. -/
def check? (kind : Nat) (bytes : Bytes) : Option Bytes :=
  match kind with
  | 1 => some (toLittleEndian 4 (crc32 bytes).toNat)
  | 4 => some (toLittleEndian 8 (crc64 bytes).toNat)
  | 10 => some (Sha256.sha256 bytes)
  | _ => none

/-! ## Filters -/

/-- The machine of a filter by its number. -/
def machine? : Nat → Option Machine
  | 4 => some .x86
  | 5 => some .powerPc
  | 6 => some .ia64
  | 7 => some .arm
  | 8 => some .armThumb
  | 9 => some .sparc
  | _ => none

/-- The filter of a number and its properties. -/
def filter? (kind : Nat) (properties : Bytes) : Option Filter :=
  match kind, properties with
  | 3, [distance] => some (.delta (distance.toNat + 1))
  | 3, _ => none
  | _, _ => do
    let machine ← machine? kind
    guard (properties.length = 0 ∨ properties.length = 4)
    let address := littleEndian properties
    guard (address % machine.alignment = 0)
    return .branches machine (UInt32.ofNat address)

/-- The number of the chunks, which come last. -/
def chunksKind : Nat := 0x21

/-- The size of the dictionary that a property stands for. -/
def dictionary? : Bytes → Option Nat
  | [b] =>
    let n := b.toNat
    if n < 40 then some ((2 + n % 2) * twoTo (n / 2 + 11))
    else if n = 40 then some 0xFFFFFFFF
    else none
  | _ => none

/-- Reads filters and, last, the size of the dictionary. -/
def filters : (more : Nat) → ByteReader (List Filter × Nat)
  | 0 => do
    guard ((← number) = chunksKind)
    let dictionary ← dictionary? (← ByteReader.take (← number))
    return ([], dictionary)
  | more + 1 => do
    let kind ← number
    let filter ← filter? kind (← ByteReader.take (← number))
    let (rest, dictionary) ← filters more
    return (filter :: rest, dictionary)

/-! ## Blocks -/

/-- What the header of a block says. -/
structure BlockHeader where
  /-- How long the header is. -/
  length : Nat
  packedSize : Option Nat
  size : Option Nat
  filters : List Filter
  dictionary : Nat
  deriving DecidableEq, Repr

/-- Reads what stands in the header of a block after its length. -/
def blockFields (length : Nat) : ByteReader BlockHeader := do
  let flags := (← ByteReader.byte).toNat
  guard (flags / 4 % 16 = 0)
  let packedSize ← if flags.testBit 6 then some <$> number else pure none
  guard (packedSize ≠ some 0)
  let size ← if flags.testBit 7 then some <$> number else pure none
  let (filters, dictionary) ← filters (flags % 4)
  guard ((← get).all (· = 0))
  return { length, packedSize, size, filters, dictionary }

/-- Reads the header of a block, given its first byte. -/
def blockHeader (first : UInt8) : ByteReader BlockHeader := do
  let length := 4 * (first.toNat + 1)
  let fields ← ByteReader.take (length - 5)
  checkedBy (first :: fields)
  (blockFields length).run' fields

/-- The sizes of a block as the index has them: of the block without the zeros after it, and of what
it restores to. -/
abbrev Sizes := Nat × Nat

/-- Reads a block, given its first byte. -/
def block (checkKind : Nat) (first : UInt8) : ByteReader (Array UInt8 × Sizes) := do
  let header ← blockHeader first
  let (packed, data) ← withBytes (Lzma.chunks header.dictionary)
  let bytes := header.filters.reverse.foldl (fun bytes filter => filter.undo bytes) packed
  guard (header.packedSize.all (· = data.length))
  guard (header.size.all (· = bytes.size))
  zeros data.length
  let check ← ByteReader.take (checkLength checkKind)
  guard ((check? checkKind bytes.toList).all (· = check))
  return (bytes, header.length + data.length + check.length, bytes.size)

/-! ## Index and footer -/

/-- Reads the sizes of a number of blocks. -/
def sizes : (count : Nat) → ByteReader (List Sizes)
  | 0 => return []
  | count + 1 => do
    let packed ← number
    let size ← number
    return (packed, size) :: (← sizes count)

/-- Reads the index after its first byte, which must have the sizes of the blocks; also how long it
is. -/
def index (blocks : List Sizes) : ByteReader Nat := do
  let (_, bytes) ← withBytes do
    let ((), records) ← withBytes do
      guard ((← number) = blocks.length)
      guard ((← sizes blocks.length) = blocks)
    zeros (records.length + 1)
  checkedBy (0 :: bytes)
  return bytes.length + 5

/-- Reads the footer, which repeats the flags of the header. -/
def footer (indexLength : Nat) (flags : Bytes) : ByteReader Unit := do
  let check ← ByteReader.number 4
  let fields ← ByteReader.take 6
  guard (check = (crc32 fields).toNat)
  guard (4 * (littleEndian (fields.take 4) + 1) = indexLength)
  guard (fields.drop 4 = flags)
  guard ((← ByteReader.take 2) = [0x59, 0x5A])

/-- Reads blocks and what follows them, given the blocks so far. Each block takes at least a byte, so
`fuel` is as many as there are bytes. -/
def blocks (flags : Bytes) (checkKind : Nat) :
    (fuel : Nat) → Array UInt8 → List Sizes → ByteReader (Array UInt8)
  | 0, _, _ => failure
  | fuel + 1, out, found => do
    let first ← ByteReader.byte
    if first = 0 then
      footer (← index found.reverse) flags
      return out
    else
      let (bytes, sizes) ← block checkKind first
      blocks flags checkKind fuel (out ++ bytes) (sizes :: found)

/-- Starts the header. -/
def mark : Bytes := [0xFD, 0x37, 0x7A, 0x58, 0x5A, 0x00]

/-- Reads all parts. -/
def stream : ByteReader (Array UInt8) := do
  guard ((← ByteReader.take mark.length) = mark)
  let flags ← ByteReader.take 2
  checkedBy flags
  let kind := littleEndian (flags.drop 1)
  guard (flags.head? = some 0 ∧ kind < 16)
  let bytes ← blocks flags kind (← get).length #[] []
  guard (← get).isEmpty
  return bytes

/-- The bytes that packed data restores to. -/
def restore? (data : Bytes) : Option Bytes := (stream.run' data).map Array.toList

end SourceJar.Archive.Xz
