import SourceJar.Archive.Inflate

/-!
Restoring bytes deflated with far distances.

The format is that of deflated bytes, with two more distance symbols, for distances up to 65536, and a
last length symbol that gives any length up to 65538. The codes that a block describes need not fill
the space of codes: bits that start no code are taken for the first symbol, as far as it has a code.

Data that ends early restores to what came before, unlike data that no block can hold. What follows the
last block is ignored.
-/

namespace SourceJar.Archive.Inflate64

/-- The bits that are still to be read, and the bytes restored so far. -/
structure Scan where
  bits : Bits
  out : Array UInt8
  deriving Repr

/-- A step through the data. A stop leaves the bytes restored so far. -/
abbrev Step := EStateM Stop Scan

/-- A number of the given width. -/
def number (width : Nat) : Step Nat := do
  let scan ← get
  match Bits.lowNumber? width scan.bits with
  | none => throw .cut
  | some (n, bits) =>
    set { scan with bits }
    return n

/-- Refuses the data unless a condition holds. -/
def require (condition : Bool) : Step Unit := if condition then pure () else throw .corrupt

/-- Adds to the bytes restored. -/
def write (change : Array UInt8 → Array UInt8) : Step Unit :=
  modify fun scan => { scan with out := change scan.out }

/-! ## Symbols -/

/-- A code for symbols, with the length of the code of the first one. -/
structure Alphabet where
  code : Inflate.Code
  firstLength : Nat
  deriving Repr

def Alphabet.ofLengths (lengths : List Nat) : Alphabet where
  code := Inflate.Code.ofLengths lengths
  firstLength := lengths.headD 0

/-- Follows bits through a code: the symbol and the bits after it, or `none` where no code goes on. -/
def follow : Inflate.Code → Bits → Except Stop (Option (Nat × Bits))
  | _, [] => .error .cut
  | .symbol value, bits => .ok (some (value, bits))
  | .unused, _ => .ok none
  | .branch zero one, bit :: bits =>
    match if bit then one else zero with
    | .symbol value => .ok (some (value, bits))
    | next => follow next bits
termination_by structural _ bits => bits

/-- Reads a symbol. -/
def Alphabet.symbol (alphabet : Alphabet) : Step Nat := do
  let scan ← get
  match follow alphabet.code scan.bits with
  | .error stop => throw stop
  | .ok (some (value, bits)) =>
    set { scan with bits }
    return value
  | .ok none =>
    require (alphabet.firstLength ≠ 0)
    let _ ← number alphabet.firstLength
    return 0

/-- The base and the number of extra bits of each length symbol, from 257 on. -/
def lengthTable : List (Nat × Nat) := Inflate.lengthTable.take 28 ++ [(3, 16)]

/-- The base and the number of extra bits of each distance symbol. -/
def distanceTable : List (Nat × Nat) := Inflate.distanceTable ++ [(32769, 14), (49153, 14)]

/-- A value from a table: the base of a symbol plus its extra bits. -/
def extended (table : List (Nat × Nat)) (symbol : Nat) : Step Nat :=
  match table[symbol]? with
  | none => throw .corrupt
  | some (base, extra) => return base + (← number extra)

/-- Reads the symbols of one block. Each symbol takes at least one bit, so `fuel` is as many as
there are bits. -/
def symbols (literals distances : Alphabet) : (fuel : Nat) → Step Unit
  | 0 => throw .cut
  | fuel + 1 => do
    let symbol ← literals.symbol
    if symbol < 256 then
      write fun out => out.push (UInt8.ofNat symbol)
      symbols literals distances fuel
    else if symbol = 256 then return ()
    else
      let length ← extended lengthTable (symbol - 257)
      let distance ← extended distanceTable (← distances.symbol)
      write (repeatOutput distance length)
      symbols literals distances fuel

/-! ## Described codes -/

/-- Reads the code lengths that one symbol stands for. -/
def lengthRun (symbol : Nat) (found : List Nat) : Step (List Nat) :=
  if symbol < 16 then return [symbol]
  else if symbol = 16 then do
    let more ← number 2
    match found.getLast? with
    | none => throw .corrupt
    | some last => return List.replicate (3 + more) last
  else if symbol = 17 then return List.replicate (3 + (← number 3)) 0
  else return List.replicate (11 + (← number 7)) 0

/-- Reads code lengths until exactly `count` are there. Each symbol stands for at least one, so
`fuel` is one more than are missing. -/
def codeLengths (alphabet : Alphabet) (count : Nat) : (fuel : Nat) → List Nat → Step (List Nat)
  | 0, _ => throw .corrupt
  | fuel + 1, found =>
    if found.length = count then return found
    else do
      let run ← lengthRun (← alphabet.symbol) found
      require (found.length + run.length ≤ count)
      codeLengths alphabet count fuel (found ++ run)

/-- Reads a number of three-bit numbers. -/
def threeBitNumbers : Nat → Step (List Nat)
  | 0 => return []
  | n + 1 => do
    let first ← number 3
    return first :: (← threeBitNumbers n)

/-- Reads the two codes that a block describes. There must be one for the end of the block. -/
def describedCodes : Step (Alphabet × Alphabet) := do
  let literals := (← number 5) + 257
  let distances := (← number 5) + 1
  let given ← threeBitNumbers ((← number 4) + 4)
  let ordered := (List.range 19).map fun symbol =>
    ((Inflate.lengthOrder.zip given).lookup symbol).getD 0
  let total := literals + distances
  let lengths ← codeLengths (Alphabet.ofLengths ordered) total (total + 1) []
  require (lengths.getD 256 0 ≠ 0)
  return (Alphabet.ofLengths (lengths.take literals), Alphabet.ofLengths (lengths.drop literals))

/-! ## Blocks -/

/-- Takes bytes as they are. -/
def rawBytes : Nat → Step Unit
  | 0 => return ()
  | n + 1 => do
    let b ← number 8
    write fun out => out.push (UInt8.ofNat b)
    rawBytes n

/-- Reads a block of bytes as they are: their number, its complement, and the bytes, after the bits
that fill up the byte. -/
def rawBlock : Step Unit := do
  modify fun scan => { scan with bits := scan.bits.drop (scan.bits.length % 8) }
  let length ← number 16
  let complement ← number 16
  require (length + complement = 0xFFFF)
  rawBytes length

/-- Reads one block of the given type. -/
def block (type : Nat) : Step Unit :=
  match type with
  | 0 => rawBlock
  | 1 => do
    symbols (Alphabet.ofLengths Inflate.fixedLengths) (Alphabet.ofLengths (List.replicate 32 5))
      (← get).bits.length
  | 2 => do
    let (literals, distances) ← describedCodes
    symbols literals distances (← get).bits.length
  | _ => throw .corrupt

/-- Reads blocks up to the last one. Each takes at least three bits, so `fuel` is as many as there
are bits. -/
def blocks : (fuel : Nat) → Step Unit
  | 0 => throw .cut
  | fuel + 1 => do
    let final ← number 1
    block (← number 2)
    if final = 1 then return () else blocks fuel

/-- The bytes that the data restores to, as far as it goes; `none` if no block can hold it. -/
def restore? (data : Bytes) : Option Bytes :=
  let bits := Inflate.bitsOfBytes data
  match blocks bits.length { bits, out := #[] } with
  | .ok _ scan => some scan.out.toList
  | .error .cut scan => some scan.out.toList
  | .error .corrupt _ => none

end SourceJar.Archive.Inflate64
