import SourceJar.Archive.LittleEndian
import SourceJar.Archive.Lzma

/-!
Restoring bytes from chunks.

A chunk holds bytes as they are, or a fraction of its own, and says how many bytes it restores to. Its
first byte says which, and whether what is likely, the properties or the dictionary start anew with
it. The first chunk must start all of them anew. A chunk is read to its end, and a zero ends the row of
chunks.
-/

namespace SourceJar.Archive.Lzma

/-- Reads symbols until `target` bytes are there; `fuel` is as many as are missing. -/
def fill (p : Properties) (dictionary target : Nat) : (fuel : Nat) → Step Unit
  | 0 => return ()
  | fuel + 1 => do
    let made := (← get).out.size
    if made < target then
      if ← symbol p dictionary then throw .corrupt else fill p dictionary target fuel
    else return ()

/-- Restores `size` bytes from a fraction. -/
def restoreChunk? (p : Properties) (dictionary size : Nat) (data : Bytes) (s : State) :
    Option State := do
  guard (5 ≤ data.length ∧ data.head? = some 0)
  let target := s.out.size + size
  let s := { s with
    range := 0xFFFFFFFF
    code := fraction (data.take 5)
    input := data.drop 5 }
  match fill p dictionary target size s with
  | .ok _ s =>
    guard (s.out.size = target ∧ s.input.isEmpty ∧ s.code = 0)
    return s
  | .error .. => none

/-- What is kept from chunk to chunk. -/
structure Chunks where
  state : State
  /-- The properties, unless they are still to be given. -/
  properties : Option Properties
  /-- Whether the dictionary is still to be started. -/
  fresh : Bool
  deriving Repr

/-- Before the first chunk. -/
def Chunks.start : Chunks where
  state := {
    range := 0
    code := 0
    input := []
    chances := #[]
    phase := 0
    recent := (0, 0, 0, 0)
    out := #[]
    start := 0 }
  properties := none
  fresh := true

/-- Forgets the bytes before. -/
def Chunks.restart (chunks : Chunks) : Chunks where
  state := { chunks.state with start := chunks.state.out.size }
  properties := none
  fresh := false

/-- A number of two bytes, the highest first, plus one. -/
def chunkSize : ByteReader Nat := do
  let high ← ByteReader.byte
  let low ← ByteReader.byte
  return 256 * high.toNat + low.toNat + 1

/-- Reads the properties of a chunk, of which few bits may count for a byte. -/
def chunkProperties : ByteReader Properties := do
  let p ← Properties.ofByte? (← ByteReader.byte)
  guard (p.previousBits + p.literalPlaceBits ≤ 4)
  return p

/-- Reads what follows the first byte of a chunk. -/
def chunk (dictionary : Nat) (control : UInt8) (chunks : Chunks) : ByteReader Chunks := do
  let chunks := if 0xE0 ≤ control ∨ control = 1 then chunks.restart else chunks
  guard (!chunks.fresh)
  if control < 0x80 then
    guard (control ≤ 2)
    let bytes ← ByteReader.take (← chunkSize)
    let state := chunks.state
    return { chunks with state := { state with out := state.out ++ bytes.toArray } }
  else
    let size := 65536 * (control.toNat % 32) + (← chunkSize)
    let length ← chunkSize
    let (p, state) ←
      if 0xC0 ≤ control then do
        let p ← chunkProperties
        pure (p, chunks.state.reset p)
      else do
        let p ← chunks.properties
        pure (p, if 0xA0 ≤ control then chunks.state.reset p else chunks.state)
    let state ← restoreChunk? p dictionary size (← ByteReader.take length) state
    return { state, properties := some p, fresh := false }

/-- Reads chunks up to the zero that ends them. Each takes at least a byte, so `fuel` is as many as
there are bytes. -/
def chunksFrom (dictionary : Nat) : (fuel : Nat) → Chunks → ByteReader (Array UInt8)
  | 0, _ => failure
  | fuel + 1, chunks => do
    let control ← ByteReader.byte
    if control = 0 then return chunks.state.out
    else chunksFrom dictionary fuel (← chunk dictionary control chunks)

/-- Reads a row of chunks. -/
def chunks (dictionary : Nat) : ByteReader (Array UInt8) := do
  chunksFrom dictionary (← get).length Chunks.start

end SourceJar.Archive.Lzma
