import SourceJar.Text.Utf8

/-!
Bytes as bits. Some formats give the lowest bit of a byte first, others the highest; a number is
written in the same order as the bits of a byte.
-/

namespace SourceJar.Archive

abbrev Bits := List Bool

namespace Bits

/-- The eight bits of a byte, the lowest first. -/
def lowFirst (b : UInt8) : Bits :=
  (List.range 8).map fun i => b.toNat.testBit i

/-- The eight bits of a byte, the highest first. -/
def highFirst (b : UInt8) : Bits := (lowFirst b).reverse

/-- A number of the given width, its lowest bit first. -/
def lowNumber? : Nat → Bits → Option (Nat × Bits)
  | 0, bits => some (0, bits)
  | _ + 1, [] => none
  | n + 1, bit :: bits => do
    let (high, rest) ← lowNumber? n bits
    return (high * 2 + bit.toNat, rest)

/-- A number of the given width, its highest bit first, after the bits of `value`. -/
def highNumberFrom? : Nat → Nat → Bits → Option (Nat × Bits)
  | value, 0, bits => some (value, bits)
  | _, _ + 1, [] => none
  | value, n + 1, bit :: bits => highNumberFrom? (value * 2 + bit.toNat) n bits

/-- A number of the given width, its highest bit first. -/
def highNumber? (width : Nat) (bits : Bits) : Option (Nat × Bits) := highNumberFrom? 0 width bits

end Bits

end SourceJar.Archive
