import SourceJar.Archive.LittleEndian
import SourceJar.Archive.Lzma.Basic

/-!
Restoring bytes from decisions after a header.

The header gives the properties, the size of the dictionary and the number of bytes, which may be left
open; the fraction follows. Bytes leave the dictionary only when it is full, so what is restored is a
whole number of dictionaries, and what is in the last one is lost. Data that ends early restores to
what came before; data that goes on after its end is refused.
-/

namespace SourceJar.Archive.Lzma

/-- How long the header is, with the start of the fraction. -/
def headerLength : Nat := 18

/-- The least size of a dictionary. -/
def minDictionary : Nat := 4096

/-- The number of bytes that leaves it open. -/
def openSize : Nat := 0xFFFFFFFFFFFFFFFF

/-- A fraction starts with a byte that does not count and four that do. -/
def fraction (bytes : Bytes) : UInt32 :=
  (bytes.drop 1).foldl (fun code b => (code <<< 8) ||| b.toUInt32) 0

/-- Refuses the data unless a condition holds. -/
def require (condition : Bool) : Step Unit := if condition then pure () else throw .corrupt

/-- Reads symbols up to the end of the data, to the end mark or until `size` bytes are there. -/
def symbols (p : Properties) (dictionary : Nat) (size : Option Nat) : (fuel : Nat) → Step Unit
  | 0 => throw .cut
  | fuel + 1 => do
    let s ← get
    let (ended, made) := (s.input.isEmpty, s.out.size)
    match size with
    | some size =>
      if size ≤ made then require ended
      else
        if ← symbol p dictionary then atEnd else symbols p dictionary (some size) fuel
    | none =>
      if ended then return ()
      else
        if ← symbol p dictionary then atEnd else symbols p dictionary none fuel
where
  /-- At the end mark nothing may be left. -/
  atEnd : Step Unit := do
    let s ← get
    require (s.input.isEmpty && s.code = 0)

/-- The bytes that data with a header restores to. A decision takes more than a fiftieth of a bit, so
there are at most 400 to a byte. -/
def restore? (data : Bytes) : Option Bytes := do
  let some first := data.head? | return []
  let p ← Properties.ofByte? first
  if data.length < headerLength then return []
  let dictionary := max minDictionary (littleEndian ((data.drop 1).take 4))
  let size := littleEndian ((data.drop 5).take 8)
  let start : State := {
    range := 0xFFFFFFFF
    code := fraction ((data.drop 13).take 5)
    input := data.drop headerLength
    chances := #[]
    phase := 0
    recent := (0, 0, 0, 0)
    out := #[]
    start := 0 }
  if start.input.isEmpty then return []
  let size := if size = openSize then none else some size
  let full (s : State) : Bytes := s.out.toList.take (s.out.size / dictionary * dictionary)
  match symbols p dictionary size (400 * (data.length + 2)) (start.reset p) with
  | .ok _ s => return full s
  | .error .cut s => return full s
  | .error .corrupt _ => none

end SourceJar.Archive.Lzma
