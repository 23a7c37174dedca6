import SourceJar.Archive.Zip.Entry
import SourceJar.Failure

/-!
The directory of an archive.

An archive ends in a record that says where its directory lies and how many entries it has. Where
these numbers do not fit, a wide record has them; it stands before a locator, which stands right
before the end record. Junk may stand before the first entry and after the last record, so places
are found by their signatures: the last end record that leads to a readable directory counts, and
the distance between where a record lies and where it is said to lie shifts all places.
-/

namespace SourceJar.Archive.Zip

/-! ## The end record -/

/-- What the end record says. -/
structure EndRecord where
  disk : Nat
  directoryDisk : Nat
  entriesHere : Nat
  entries : Nat
  directoryOffset : Nat
  deriving DecidableEq, Repr

/-- Reads the end record at an offset, its comment included. -/
def endRecordAt (data : Bytes) (offset : Nat) : Except Failure EndRecord :=
  match slice? data offset 22 with
  | none => .error (.io .endOfInput)
  | some record =>
    if (slice? data (offset + 22) (fieldAt record 20 2)).isNone then
      .error (.archive .endRecordCommentCut)
    else
      .ok {
        disk := fieldAt record 4 2
        directoryDisk := fieldAt record 6 2
        entriesHere := fieldAt record 8 2
        entries := fieldAt record 10 2
        directoryOffset := fieldAt record 16 4 }

/-- Whether the end record leaves a number to the wide record. -/
def EndRecord.isWide (record : EndRecord) : Bool :=
  record.entries = wide16 || record.directoryOffset = wide32

/-- Where a directory lies, how many entries it has and how far all places are shifted. -/
structure Extent where
  start : Nat
  count : Nat
  shift : Nat
  deriving DecidableEq, Repr

/-- How far places are shifted, given where the end record stands: the directory lies where the
record says, or else at the first place after that with its signature. -/
def shiftOf (data : Bytes) (record : EndRecord) (offset : Nat) : Except Failure Nat :=
  if record.entries = 0 then .ok (offset - record.directoryOffset)
  else if offset ≤ record.directoryOffset then .error (.archive .directoryOffset)
  else
    match (positionsWithin directorySignature data record.directoryOffset offset).head? with
    | some found => .ok (found - record.directoryOffset)
    | none => .error (.archive .directoryMissing)

/-- The extent that an end record gives by itself; `none` if the archive is spread over disks. -/
def EndRecord.extent? (record : EndRecord) (shift : Nat) : Option Extent :=
  if record.disk ≠ record.directoryDisk then none
  else some ⟨record.directoryOffset + shift, record.entriesHere, shift⟩

/-! ## The wide record -/

/-- The locator says where the wide record starts. -/
structure Locator where
  /-- The disk with the directory, as the wide record must have it too. -/
  disk : Nat
  wideOffset : Nat
  disks : Nat
  deriving DecidableEq, Repr

/-- How long a locator is. -/
def locatorLength : Nat := 20

/-- The locator right before an end record and where it stands, if there is one. -/
def locatorBefore? (data : Bytes) (endOffset : Nat) : Option (Nat × Locator) := do
  guard (locatorLength ≤ endOffset)
  let offset := endOffset - locatorLength
  let record ← slice? data offset locatorLength
  guard (locatorSignature.isPrefixOf record)
  return (offset, {
    disk := fieldAt record 4 4
    wideOffset := fieldAt record 8 8
    disks := fieldAt record 16 4 })

/-- What the wide record says. -/
structure WideRecord where
  madeBy : Nat
  needed : Nat
  disk : Nat
  directoryDisk : Nat
  entriesHere : Nat
  entries : Nat
  directoryOffset : Nat
  deriving DecidableEq, Repr

/-- Reads the wide record at an offset. Its length counts from after the length itself and must
bring it exactly to the locator. -/
def wideRecordAt (data : Bytes) (locator : Locator) (locatorOffset offset : Nat) :
    Except Failure WideRecord :=
  match slice? data offset 56 with
  | none => .error (.io .endOfInput)
  | some record =>
    let length := fieldAt record 4 8 + 12
    let wide : WideRecord := {
      madeBy := fieldAt record 12 2
      needed := fieldAt record 14 2
      disk := fieldAt record 16 4
      directoryDisk := fieldAt record 20 4
      entriesHere := fieldAt record 24 8
      entries := fieldAt record 32 8
      directoryOffset := fieldAt record 48 8 }
    if length < 56 then .error (.archive .wideRecordShort)
    else if locatorOffset - offset < length then .error (.archive .wideRecordLong)
    else if wide.directoryDisk ≠ locator.disk then .error (.archive .wideRecordDisk)
    else if length ≠ locatorOffset - offset then .error (.archive .wideRecordLength)
    else if offset < wide.entries * 46 + wide.directoryOffset then
      .error (.archive .wideRecordEntries)
    else .ok wide

/-- Looks through places of the wide signature for a record; failing that, the last fault counts. -/
def firstWideRecord (data : Bytes) (locator : Locator) (locatorOffset : Nat) :
    List Nat → Failure → Except Failure (Nat × WideRecord)
  | [], fault => .error fault
  | offset :: others, _ =>
    match wideRecordAt data locator locatorOffset offset with
    | .ok record => .ok (offset, record)
    | .error fault => firstWideRecord data locator locatorOffset others fault

/-- The wide record that a locator leads to, and how far places are shifted. -/
def wideRecord (data : Bytes) (locator : Locator) (locatorOffset : Nat) :
    Except Failure (WideRecord × Nat) := do
  if locatorOffset ≤ locator.wideOffset then throw (.archive .locatorOffset)
  if 1 < locator.disks then throw (.archive .manyDisks)
  let places := positionsWithin wideEndSignature data locator.wideOffset locatorOffset
  let (offset, record) ←
    firstWideRecord data locator locatorOffset places (.archive .wideRecordMissing)
  return (record, offset - locator.wideOffset)

/-- The extent that a wide record gives; `none` if the archive is spread over disks or if the
record contradicts itself. -/
def WideRecord.extent? (record : WideRecord) (shift : Nat) : Option Extent :=
  if record.entries < record.entriesHere ∨ record.madeBy < record.needed ∨
    record.disk ≠ record.directoryDisk then none
  else some ⟨record.directoryOffset + shift, record.entries, shift⟩

/-! ## The directory -/

/-- The extent of the directory that an end record leads to. A fault says that the record itself
leads nowhere, `none` that the directory is unreadable. -/
def extentOf (data : Bytes) (record : EndRecord) (offset : Nat) : Except Failure (Option Extent) :=
  match if record.isWide then locatorBefore? data offset else none with
  | none => do
    let shift ← shiftOf data record offset
    return record.extent? shift
  | some (locatorOffset, locator) => do
    let (wide, shift) ← wideRecord data locator locatorOffset
    return wide.extent? shift

/-- Reads a number of directory entries in a row, with all places shifted. An entry's own header
must stand before the directory, which starts at `start`. -/
def directoryEntries? (data : Bytes) (start shift : Nat) :
    Nat → Nat → Option (List DirectoryEntry)
  | 0, _ => some []
  | count + 1, offset => do
    let (entry, next) ← directoryEntryAt? data offset
    let entry := { entry with headerOffset := entry.headerOffset + shift }
    guard (entry.headerOffset < start)
    let others ← directoryEntries? data start shift count next
    return entry :: others

/-- The entries in an extent. -/
def Extent.entries? (extent : Extent) (data : Bytes) : Option (List DirectoryEntry) :=
  directoryEntries? data extent.start extent.shift extent.count extent.start

/-- Looks through places of the end signature, the last one first, for one that leads to a readable
directory. The first record that cannot be read is remembered, unless a later one is faulty. -/
def directoryFrom (data : Bytes) : List Nat → Option Failure → Except Failure (List DirectoryEntry)
  | [], fault => .error (fault.getD (.archive .endRecordMissing))
  | offset :: others, fault =>
    match endRecordAt data offset with
    | .error e => directoryFrom data others (some (fault.getD e))
    | .ok record =>
      match extentOf data record offset with
      | .error e => directoryFrom data others (some e)
      | .ok extent =>
        match extent.bind fun extent => extent.entries? data with
        | some entries => .ok entries
        | none => directoryFrom data others none

/-- Takes an entry into a directory: of two entries with one name the first gives the place and the
last the rest. -/
def place (entry : DirectoryEntry) : List DirectoryEntry → List DirectoryEntry
  | [] => [entry]
  | other :: rest => if other.name = entry.name then entry :: rest else other :: place entry rest

/-- The directory of an archive. -/
def read (data : Bytes) : Except Failure (List DirectoryEntry) := do
  let entries ← directoryFrom data (positionsFrom endSignature 0 data).reverse none
  return entries.foldl (fun placed entry => place entry placed) []

end SourceJar.Archive.Zip
