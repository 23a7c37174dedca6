import SourceJar.Archive.CodePage
import SourceJar.Archive.Crc32
import SourceJar.Archive.Zip.Field

/-!
Entries of an archive's directory.

An entry is a record of fixed length, followed by its name, its extra fields and its comment. Extra
fields are a number, a length and that many bytes each; some of them change the entry: sizes and
places that do not fit in four bytes, a name or comment in UTF-8, the real method of an encrypted
entry. `ExtraField.takeIn?` takes them in one after another. A field of a known number that does not
hold what it must refuses the entry; fields that end early only end the reading of the fields, and
what came before counts.
-/

namespace SourceJar.Archive.Zip

/-- An entry of the directory. -/
structure DirectoryEntry where
  name : String
  /-- The bytes that the name was read from. -/
  rawName : Bytes
  comment : String
  flags : Nat
  method : Nat
  time : Nat
  date : Nat
  crc : UInt32
  compressedSize : Nat
  size : Nat
  /-- Where the entry's own header stands. -/
  headerOffset : Nat
  /-- Whether an extra field describes how the entry is encrypted. -/
  describesEncryption : Bool := false
  deriving DecidableEq, Repr

/-- The method of data that is kept as it is. -/
def stored : Nat := 0

/-- The method of data that is deflated. -/
def deflated : Nat := 8

/-- The method of data that is deflated with far distances. -/
def farDeflated : Nat := 9

/-- The method of data that is packed in sorted blocks. -/
def blockSorted : Nat := 12

/-- The method of data that is packed as decisions after a header. -/
def decided : Nat := 14

/-- The method of data that is packed in frames. -/
def framed : Nat := 93

/-- The method of data that is packed in blocks with an index. -/
def indexed : Nat := 95

/-- The method that marks encrypted data; the real method stands in an extra field. -/
def encryptedMethod : Nat := 99

namespace ExtraField

/-- Why reading the extra fields stops before their end. -/
inductive Stop where
  /-- The fields end inside a field. -/
  | cut
  /-- A field does not hold what it must. -/
  | refused
  deriving DecidableEq, Repr

/-- The entry with the fields so far taken in, and the bytes that are still to be read. -/
structure Scan where
  entry : DirectoryEntry
  rest : Bytes
  deriving DecidableEq, Repr

/-- A step through the extra fields. A stop leaves the entry as far as it has come. -/
abbrev Step := EStateM Stop Scan

/-- The next `count` bytes. -/
def take (count : Nat) : Step Bytes := do
  let scan ← get
  match slice? scan.rest 0 count with
  | none => throw .cut
  | some bytes =>
    set { scan with rest := scan.rest.drop count }
    return bytes

/-- The next number of `width` bytes. -/
def number (width : Nat) : Step Nat := return littleEndian (← take width)

/-- Passes over `count` bytes. -/
def skip (count : Nat) : Step Unit := do
  let _ ← take count

/-- Refuses the entry unless a condition holds. -/
def require (condition : Bool) : Step Unit := if condition then pure () else throw .refused

/-- Changes the entry. -/
def update (change : DirectoryEntry → DirectoryEntry) : Step Unit :=
  modify fun scan => { scan with entry := change scan.entry }

/-- Reads a number of eight bytes in place of one that is `given`, if the field is long enough to
hold all such numbers or if the given one is the greatest of its width. Also how many bytes were
read. -/
def widened (length given : Nat) (store : Nat → DirectoryEntry → DirectoryEntry) : Step Nat :=
  if 24 ≤ length ∨ given = wide32 then do
    let value ← number 8
    update (store value)
    return 8
  else return 0

/-- Sizes and place in eight bytes each. Those that are not needed may be left out. -/
def wideNumbers (length : Nat) : Step Unit := do
  let entry := (← get).entry
  let first ← widened length entry.size fun n e => { e with size := n }
  let second ← widened length entry.compressedSize fun n e => { e with compressedSize := n }
  let third ← widened length entry.headerOffset fun n e => { e with headerOffset := n }
  let read := first + second + third
  require (read ≤ length)
  skip (length - read)

/-- Three times in eight bytes each, under a tag. -/
def fileTimes (length : Nat) : Step Unit := do
  require (length = 32)
  skip 4
  let tag ← number 2
  require (tag = 1)
  let size ← number 2
  require (size = 24)
  skip 24

/-- How many of the eight lowest bits of a number are set. -/
def bitCount (n : Nat) : Nat := (List.range 8).countP n.testBit

/-- Up to three times in four bytes each: flags say which, and a field of five bytes has the first
one whatever they say. There are no flags but those of the three times. -/
def timestamps (length : Nat) : Step Unit := do
  let flags ← number 1
  require (length = 5 ∨ length = 1 + 4 * bitCount flags)
  require (flags < 8)
  if flags.testBit 0 ∨ length = 5 then skip 4
  if flags.testBit 1 ∧ 5 < length then skip 4
  if flags.testBit 2 ∧ 5 < length then skip 4

/-- How the entry is encrypted: version and vendor, strength, and the real method. -/
def encryption (length : Nat) : Step Unit := do
  require (length = 7)
  let version ← number 2
  let vendor ← number 2
  let strength ← number 1
  let method ← number 2
  require (vendor = 0x4541)
  require (version = 1 ∨ version = 2)
  require (1 ≤ strength ∧ strength ≤ 3)
  update fun e => { e with method, describesEncryption := true }

/-- A text in UTF-8 that stands for another, with the checksum of the bytes that it stands for. -/
def replacement (length : Nat) (replaced : Bytes) : Step (Bytes × String) := do
  skip 1
  let crc ← number 4
  require (5 ≤ length)
  let bytes ← take (length - 5)
  require (crc = (crc32 replaced).toNat)
  match Utf8.decode? bytes with
  | some text => return (bytes, text)
  | none => throw .refused

def unicodeComment (length : Nat) : Step Unit := do
  let entry := (← get).entry
  let (_, comment) ← replacement length (Utf8.encode entry.comment)
  update fun e => { e with comment }

def unicodeName (length : Nat) : Step Unit := do
  let entry := (← get).entry
  let (rawName, name) ← replacement length entry.rawName
  update fun e => { e with rawName, name }

/-- Reads one field. Those of other numbers are passed over. -/
def field : Step Unit := do
  let kind ← number 2
  let length ← number 2
  match kind with
  | 0x0001 => wideNumbers length
  | 0x000A => fileTimes length
  | 0x5455 => timestamps length
  | 0x6375 => unicodeComment length
  | 0x7075 => unicodeName length
  | 0x9901 => encryption length
  | _ => skip length

/-- Reads fields until no byte is left. Each takes at least four bytes, so `fuel` is as many as
there are bytes. -/
def fields : Nat → Step Unit
  | 0 => return ()
  | fuel + 1 => do
    if (← get).rest.isEmpty then return ()
    field
    fields fuel

/-- Takes extra fields into an entry, `none` if one of them refuses it. -/
def takeIn? (entry : DirectoryEntry) (extra : Bytes) : Option DirectoryEntry :=
  match fields extra.length { entry, rest := extra } with
  | .ok _ scan => some scan.entry
  | .error .cut scan => some scan.entry
  | .error .refused _ => none

end ExtraField

/-- The text of a name or comment: UTF-8 if the entry says so, else of the code page. -/
def decodeText (flags : Nat) (bytes : Bytes) : String :=
  if flags.testBit 11 then Utf8.decodeLossy bytes else codePageText bytes

/-- Reads the directory entry at an offset; also where the next one is. An entry with the method of
encrypted data must describe its encryption. -/
def directoryEntryAt? (data : Bytes) (offset : Nat) : Option (DirectoryEntry × Nat) := do
  let record ← slice? data offset 46
  guard (directorySignature.isPrefixOf record)
  let nameLength := fieldAt record 28 2
  let extraLength := fieldAt record 30 2
  let commentLength := fieldAt record 32 2
  let extraOffset := offset + 46 + nameLength
  let commentOffset := extraOffset + extraLength
  let rawName ← slice? data (offset + 46) nameLength
  let extra ← slice? data extraOffset extraLength
  let comment ← slice? data commentOffset commentLength
  let flags := fieldAt record 8 2
  let entry ← ExtraField.takeIn? {
      name := decodeText flags rawName
      rawName
      comment := decodeText flags comment
      flags
      method := fieldAt record 10 2
      time := fieldAt record 12 2
      date := fieldAt record 14 2
      crc := UInt32.ofNat (fieldAt record 16 4)
      compressedSize := fieldAt record 20 4
      size := fieldAt record 24 4
      headerOffset := fieldAt record 42 4 } extra
  guard (entry.method ≠ encryptedMethod || entry.describesEncryption)
  return (entry, commentOffset + commentLength)

end SourceJar.Archive.Zip
