import SourceJar.Archive.LittleEndian
import SourceJar.Archive.Zstd.Entropy

/-!
The literals of a block: bytes that stand in it for themselves.

They are given as they are, as one byte and how often it comes, or in a code with one or four rows of
bits. The code is described by the weights of the bytes: a code is the shorter the greater the weight.
The weight of the last byte is left out, because the weights fill the space of codes exactly.
-/

namespace SourceJar.Archive.Zstd

/-- A code for bytes: how many bits its longest codes have, and for each row of as many bits the byte
whose code stands at its front and the length of that code. -/
structure ByteCode where
  log : Nat
  entries : Array (UInt8 × Nat)
  deriving Repr

/-! ## Weights -/

/-- The greatest weight. -/
def maxWeight : Nat := 12

/-- Reads weights with two states that take turns, until the bits for the next state are missing. The
latest weight comes first. -/
def weightsFrom (table : Table) : (fuel : Nat) → (state other : Nat) → List Nat → BackReader (List Nat)
  | 0, _, _, _ => failure
  | fuel + 1, state, other, found => do
    let found := (table.cell state).symbol :: found
    if (← get).length < (table.cell state).width then return (table.cell other).symbol :: found
    else weightsFrom table fuel other (← table.next state) found

/-- The weights in some bytes, with a table of their own. -/
def codedWeights? (bytes : Bytes) : Option (List Nat) := do
  let (table, rest) ← table? 256 6 bytes
  let bits ← backward? rest
  let reader : BackReader (List Nat) := do
    let state ← table.first
    let other ← table.first
    weightsFrom table 254 state other []
  return (← reader.run' bits).reverse

/-- The weights in some bytes, two in each. -/
def plainWeights (count : Nat) (bytes : Bytes) : List Nat :=
  (bytes.flatMap fun b => [b.toNat / 16, b.toNat % 16]).take count

/-- Reads all weights but the last. -/
def weights : ByteReader (List Nat) := do
  let header := (← ByteReader.byte).toNat
  if header < 128 then
    codedWeights? (← ByteReader.take header)
  else
    let count := header - 127
    return plainWeights count (← ByteReader.take ((count + 1) / 2))

/-- The part of the space of codes that a weight takes up. -/
def spaceOf (weight : Nat) : Nat := twoTo weight / 2

/-- The code that all weights but the last give. Two codes at least have the greatest length. -/
def ByteCode.ofWeights? (weights : List Nat) : Option ByteCode := do
  guard (weights.all (· ≤ maxWeight))
  let space := weights.foldl (fun space weight => space + spaceOf weight) 0
  guard (space ≠ 0)
  let log := Nat.log2 space + 1
  guard (log ≤ maxWeight)
  let left := twoTo log - space
  guard (left = twoTo (Nat.log2 left))
  let weights := weights ++ [Nat.log2 left + 1]
  let longest := weights.count 1
  guard (2 ≤ longest ∧ longest % 2 = 0)
  let entries := (List.range log).flatMap fun i =>
    let same := (weights.zipIdx.filter fun (weight, _) => weight == i + 1).map Prod.snd
    same.flatMap fun symbol => List.replicate (spaceOf (i + 1)) (UInt8.ofNat symbol, log - i)
  return { log, entries := entries.toArray }

/-! ## Rows of bits -/

/-- The number that the next bits make up, the highest first, with zeros after the last. -/
def peek : (width : Nat) → (value : Nat) → Bits → Nat
  | 0, value, _ => value
  | width + 1, value, [] => peek width (2 * value) []
  | width + 1, value, bit :: bits => peek width (2 * value + bit.toNat) bits

/-- Reads a byte. -/
def ByteCode.byte (code : ByteCode) : BackReader UInt8 := do
  let bits ← get
  let (byte, length) ← code.entries[peek code.log 0 bits]?
  let _ ← backNumber length
  return byte

/-- Reads a number of bytes. -/
def ByteCode.bytes (code : ByteCode) : (count : Nat) → Array UInt8 → BackReader (Array UInt8)
  | 0, out => return out
  | count + 1, out => do
    let byte ← code.byte
    code.bytes count (out.push byte)

/-- The bytes in one row of bits, which must come to its end with them. -/
def ByteCode.row? (code : ByteCode) (count : Nat) (data : Bytes) : Option (Array UInt8) := do
  let (out, rest) ← (code.bytes count #[]).run (← backward? data)
  guard rest.isEmpty
  return out

/-- The bytes in four rows of bits, each but the last with its length before them all. -/
def ByteCode.fourRows? (code : ByteCode) (count : Nat) (data : Bytes) : Option (Array UInt8) := do
  guard (6 ≤ count ∧ 10 ≤ data.length)
  let lengths := [0, 2, 4].map fun i => littleEndian ((data.drop i).take 2)
  guard (lengths.foldl (· + ·) 6 ≤ data.length)
  let each := (count + 3) / 4
  guard (3 * each ≤ count)
  let rows := data.drop 6
  let first ← code.row? each (rows.take (lengths.getD 0 0))
  let rows := rows.drop (lengths.getD 0 0)
  let second ← code.row? each (rows.take (lengths.getD 1 0))
  let rows := rows.drop (lengths.getD 1 0)
  let third ← code.row? each (rows.take (lengths.getD 2 0))
  let fourth ← code.row? (count - 3 * each) (rows.drop (lengths.getD 2 0))
  return first ++ second ++ third ++ fourth

/-! ## Literals -/

/-- Reads literals that are not in a code: as they are or as one byte. -/
def plainLiterals (limit first : Nat) (same : Bool) : ByteReader (Array UInt8) := do
  let count ←
    match first / 4 % 4 with
    | 1 => pure ((first + 256 * (← ByteReader.number 1)) / 16)
    | 3 => pure ((first + 256 * (← ByteReader.number 2)) / 16)
    | _ => pure (first / 8)
  guard (count ≤ limit)
  if same then return Array.replicate count (← ByteReader.byte)
  else return (← ByteReader.take count).toArray

/-- Reads literals in the code of an earlier block or in one of their own; also the code. -/
def codedLiterals (limit first : Nat) (earlier : Option ByteCode) : ByteReader (Array UInt8 × ByteCode) :=
  do
  let form := first / 4 % 4
  let width := if form < 2 then 10 else if form = 2 then 14 else 18
  let sizes := first / 16 + 16 * (← ByteReader.number ((2 * width + 4) / 8 - 1))
  let count := sizes % twoTo width
  let data ← ByteReader.take (sizes / twoTo width)
  guard (count ≤ limit)
  let (code, rows) ←
    match earlier with
    | some code => pure (code, data)
    | none => do
      let (weights, rows) ← weights.run data
      pure (← ByteCode.ofWeights? weights, rows)
  let literals ← if form = 0 then code.row? count rows else code.fourRows? count rows
  return (literals, code)

/-- Reads the literals of a block, at most `limit`; also the code that later blocks may use. -/
def literals (limit : Nat) (earlier : Option ByteCode) :
    ByteReader (Array UInt8 × Option ByteCode) := do
  let first := (← ByteReader.byte).toNat
  match first % 4 with
  | 0 => return (← plainLiterals limit first false, earlier)
  | 1 => return (← plainLiterals limit first true, earlier)
  | 2 =>
    let (bytes, code) ← codedLiterals limit first none
    return (bytes, some code)
  | _ =>
    guard earlier.isSome
    let (bytes, code) ← codedLiterals limit first earlier
    return (bytes, some code)

end SourceJar.Archive.Zstd
