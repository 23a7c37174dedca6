import SourceJar.Archive.LittleEndian

/-!
What the records of an archive are made of: little-endian fields, and the signatures by which records
are found.
-/

namespace SourceJar.Archive.Zip

/-- The number of `width` bytes at an offset of a record. -/
def fieldAt (record : Bytes) (offset width : Nat) : Nat :=
  littleEndian ((record.drop offset).take width)

/-- Stands before the data of an entry. -/
def localSignature : Bytes := [0x50, 0x4B, 0x03, 0x04]

/-- Starts an entry of the directory. -/
def directorySignature : Bytes := [0x50, 0x4B, 0x01, 0x02]

/-- Starts the end record. -/
def endSignature : Bytes := [0x50, 0x4B, 0x05, 0x06]

/-- Starts the wide end record. -/
def wideEndSignature : Bytes := [0x50, 0x4B, 0x06, 0x06]

/-- Starts the locator of the wide end record. -/
def locatorSignature : Bytes := [0x50, 0x4B, 0x06, 0x07]

/-- The offsets at which a pattern stands, counted from `offset`. -/
def positionsFrom (pattern : Bytes) (offset : Nat) : Bytes → List Nat
  | [] => []
  | b :: rest =>
    let later := positionsFrom pattern (offset + 1) rest
    if pattern.isPrefixOf (b :: rest) then offset :: later else later

/-- The offsets between `low` and `high` at which a pattern stands. -/
def positionsWithin (pattern data : Bytes) (low high : Nat) : List Nat :=
  positionsFrom pattern low ((data.drop low).take (high - low))

/-- The greatest number of two bytes, which says that the wide record has the number. -/
def wide16 : Nat := 0xFFFF

/-- The greatest number of four bytes, which says that a wide field has the number. -/
def wide32 : Nat := 0xFFFFFFFF

end SourceJar.Archive.Zip
