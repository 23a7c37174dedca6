import SourceJar.Text.Utf8

/-!
What restoring packed bytes has in common, whatever the format: why it stops, how earlier output is
repeated, and the powers of two that fields are cut by.
-/

namespace SourceJar.Archive

/-- Why restoring stops before the end of the data. -/
inductive Stop where
  /-- The data ends early. -/
  | cut
  /-- The data is none of the format. -/
  | corrupt
  deriving DecidableEq, Repr

/-- Two to a power. -/
def twoTo (n : Nat) : Nat := Nat.pow 2 n

/-- The byte `distance` back from the end of the output. Before the output there are zeros. -/
def byteBack (distance : Nat) (out : Array UInt8) : UInt8 :=
  if distance ≤ out.size then out.getD (out.size - distance) 0 else 0

/-- Repeats bytes of the output from `distance` back, as many as are asked for. -/
def repeatOutput (distance : Nat) : Nat → Array UInt8 → Array UInt8
  | 0, out => out
  | n + 1, out => repeatOutput distance n (out.push (byteBack distance out))

end SourceJar.Archive
