import SourceJar.Text.Utf8

/-!
Numbers and pieces in rows of bytes. Numbers have their lowest byte first.
-/

namespace SourceJar.Archive

/-- A little-endian number. -/
def littleEndian : Bytes → Nat
  | [] => 0
  | b :: rest => b.toNat + 256 * littleEndian rest

/-- The little-endian bytes of a number, cut to a width. -/
def toLittleEndian : (width n : Nat) → Bytes
  | 0, _ => []
  | width + 1, n => UInt8.ofNat n :: toLittleEndian width (n / 256)

/-- The `length` bytes from `offset` on, if all are there. -/
def slice? (data : Bytes) (offset length : Nat) : Option Bytes :=
  let piece := (data.drop offset).take length
  if piece.length = length then some piece else none

/-! ## Reading from the front -/

/-- A reader of bytes from the front of a row. -/
abbrev ByteReader := StateT Bytes Option

namespace ByteReader

def byte : ByteReader UInt8
  | [] => none
  | b :: rest => some (b, rest)

/-- The next `count` bytes. -/
def take (count : Nat) : ByteReader Bytes := fun bytes => do
  let piece ← slice? bytes 0 count
  return (piece, bytes.drop count)

/-- The next number of `width` bytes. -/
def number (width : Nat) : ByteReader Nat := return littleEndian (← take width)

end ByteReader

end SourceJar.Archive
