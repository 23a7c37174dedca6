import SourceJar.Text.Utf8

/-!
The checksum of archive entries: CRC-32 with the reflected polynomial `EDB88320`.
-/

namespace SourceJar.Archive

/-- One step of the remainder: shift right, and subtract the polynomial if a bit fell out. -/
def crcShift (c : UInt32) : UInt32 :=
  if c &&& 1 = 1 then (c >>> 1) ^^^ 0xEDB88320 else c >>> 1

/-- Takes one byte into the remainder. -/
def crcByte (c : UInt32) (b : UInt8) : UInt32 :=
  let c := c ^^^ b.toUInt32
  crcShift (crcShift (crcShift (crcShift (crcShift (crcShift (crcShift (crcShift c)))))))

/-- The checksum of a sequence of bytes. -/
def crc32 (bytes : Bytes) : UInt32 := bytes.foldl crcByte 0xFFFFFFFF ^^^ 0xFFFFFFFF

end SourceJar.Archive
