import SourceJar.Text.Utf8

/-!
The checksum CRC-64 with the reflected polynomial `C96C5795D7870F42`.
-/

namespace SourceJar.Archive

/-- One step of the remainder: shift right, and subtract the polynomial if a bit fell out. -/
def crc64Shift (c : UInt64) : UInt64 :=
  if c &&& 1 = 1 then (c >>> 1) ^^^ 0xC96C5795D7870F42 else c >>> 1

/-- Takes one byte into the remainder. -/
def crc64Byte (c : UInt64) (b : UInt8) : UInt64 :=
  (List.range 8).foldl (fun c _ => crc64Shift c) (c ^^^ b.toUInt64)

/-- The checksum of a sequence of bytes. -/
def crc64 (bytes : Bytes) : UInt64 :=
  bytes.foldl crc64Byte 0xFFFFFFFFFFFFFFFF ^^^ 0xFFFFFFFFFFFFFFFF

end SourceJar.Archive
