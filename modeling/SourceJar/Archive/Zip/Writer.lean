import SourceJar.Archive.Zip.Entry

/-!
Writing archives.

Entries stand one after another, each with a header of its own; the directory follows, and the end
record. `Zip.read` and `Zip.content` take such an archive apart again.
-/

namespace SourceJar.Archive.Zip

/-- An entry to be written. Content is deflated unless it is empty. -/
structure OutputEntry where
  name : String
  content : Bytes
  deriving DecidableEq, Repr

/-- The date of every entry: the first day that an archive can tell. -/
def earliestDate : Nat := 0x21

/-- The greatest number of bytes in one block. -/
def maxBlock : Nat := 65535

theorem maxBlock_pos : 0 < maxBlock := by simp [maxBlock]

/-- Data in deflated form, as blocks of bytes as they are. -/
def deflate (data : Bytes) : Bytes :=
  let block := data.take maxBlock
  let rest := data.drop maxBlock
  let header := toLittleEndian 2 block.length ++ toLittleEndian 2 (maxBlock - block.length)
  if rest.isEmpty then 0x01 :: header ++ block
  else 0x00 :: header ++ block ++ deflate rest
termination_by data.length
decreasing_by
  rename_i h
  have hne : data.drop maxBlock ≠ [] := fun hnil => h (List.isEmpty_iff.2 hnil)
  have hlen := List.length_pos_iff.2 hne
  have hpos := maxBlock_pos
  rw [List.length_drop] at hlen ⊢
  omega

/-- The data of an entry as it stands in the archive, with its method. -/
def packed (entry : OutputEntry) : Nat × Bytes :=
  if entry.content = [] then (stored, []) else (deflated, deflate entry.content)

/-- The fields that an entry's two headers share, from the version on. -/
def sharedFields (entry : OutputEntry) : Bytes :=
  let name := Utf8.encode entry.name
  let (method, data) := packed entry
  let flags := if name.all (· < 0x80) then 0 else 0x800
  toLittleEndian 2 20 ++ toLittleEndian 2 flags ++ toLittleEndian 2 method ++ toLittleEndian 2 0 ++
    toLittleEndian 2 earliestDate ++ toLittleEndian 4 (crc32 entry.content).toNat ++
    toLittleEndian 4 data.length ++ toLittleEndian 4 entry.content.length ++
    toLittleEndian 2 name.length ++ toLittleEndian 2 0

/-- An entry with its own header. -/
def localEntry (entry : OutputEntry) : Bytes :=
  localSignature ++ sharedFields entry ++ Utf8.encode entry.name ++ (packed entry).2

/-- An entry of the directory, for an entry at an offset. -/
def directoryRecord (entry : OutputEntry) (offset : Nat) : Bytes :=
  directorySignature ++ toLittleEndian 2 20 ++ sharedFields entry ++ toLittleEndian 2 0 ++
    toLittleEndian 2 0 ++ toLittleEndian 2 0 ++ toLittleEndian 4 0 ++ toLittleEndian 4 offset ++
    Utf8.encode entry.name

/-- The entries one after another and the directory records for them, from an offset on. -/
def layout : List OutputEntry → Nat → Bytes × Bytes
  | [], _ => ([], [])
  | entry :: rest, offset =>
    let first := localEntry entry
    let (entries, records) := layout rest (offset + first.length)
    (first ++ entries, directoryRecord entry offset ++ records)

/-- The bytes of an archive. -/
def encode (entries : List OutputEntry) : Bytes :=
  let (body, directory) := layout entries 0
  body ++ directory ++ endSignature ++ toLittleEndian 4 0 ++ toLittleEndian 2 entries.length ++
    toLittleEndian 2 entries.length ++ toLittleEndian 4 directory.length ++
    toLittleEndian 4 body.length ++ toLittleEndian 2 0

end SourceJar.Archive.Zip
