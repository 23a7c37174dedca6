import SourceJar.Archive.Bits
import SourceJar.Archive.Unpacking

/-!
Restoring deflated bytes.

The input is read bit by bit, the lowest bit of each byte first. A prefix code is a binary tree whose
branches are bits and whose leaves are symbols; it is built from the lengths of the codes alone, by
giving the codes of each length out in order. A block holds bytes as they are, or symbols of a fixed
code, or symbols of a code that it describes itself: bytes, the end of the block, or a length and a
distance that repeat earlier output.

Every reader gives `none` for input that ends early as well as for data that no block can hold, so
only data that comes to the end of a last block is restored. What follows that block is ignored.
-/

namespace SourceJar.Archive.Inflate

def bitsOfBytes (bytes : Bytes) : Bits := bytes.flatMap Bits.lowFirst

/-! ## Prefix codes -/

/-- A prefix code. -/
inductive Code where
  | unused
  | symbol (value : Nat)
  | branch (zero one : Code)
  deriving Repr

/-- Gives a symbol the code `path`. -/
def Code.insert (value : Nat) : Bits → Code → Code
  | [], _ => .symbol value
  | false :: path, .branch zero one => .branch (zero.insert value path) one
  | true :: path, .branch zero one => .branch zero (one.insert value path)
  | false :: path, _ => .branch (Code.unused.insert value path) .unused
  | true :: path, _ => .branch .unused (Code.unused.insert value path)

/-- Reads one symbol. -/
def Code.read? : Code → Bits → Option (Nat × Bits)
  | .symbol value, bits => some (value, bits)
  | .unused, _ => none
  | .branch .., [] => none
  | .branch zero one, bit :: bits => if bit then one.read? bits else zero.read? bits

/-- The bits of a code, the highest first. -/
def codeBits (length value : Nat) : Bits :=
  (List.range length).reverse.map fun i => value.testBit i

/-- The symbols of one length, in order. -/
def symbolsOfLength (lengths : List Nat) (length : Nat) : List Nat :=
  (lengths.zipIdx.filter fun (l, _) => l == length).map Prod.snd

/-- Gives out the codes of one length after another, from `length` on. -/
def assign (lengths : List Nat) : Nat → Nat → Nat → Code → Code
  | 0, _, _, code => code
  | more + 1, length, next, code =>
    let symbols := symbolsOfLength lengths length
    let code := symbols.zipIdx.foldl
      (fun code (symbol, i) => code.insert symbol (codeBits length (next + i))) code
    assign lengths more (length + 1) ((next + symbols.length) * 2) code

/-- The greatest length of a code. -/
def maxLength : Nat := 15

/-- The code with the given lengths, where 0 stands for a symbol without a code. -/
def Code.ofLengths (lengths : List Nat) : Code := assign lengths maxLength 1 0 .unused

/-- How much of the space of codes the lengths take up, in units of the longest code. -/
def spaceUsed (lengths : List Nat) : Nat :=
  (lengths.filter (· ≠ 0)).foldl (fun space l => space + Nat.pow 2 (maxLength - l)) 0

/-- Whether the lengths fill the space of codes: every row of bits starts with a code. -/
def fillsSpace (lengths : List Nat) : Bool := spaceUsed lengths = Nat.pow 2 maxLength

/-- Whether at most one symbol has a code, and that a code of one bit. -/
def isTrivial (lengths : List Nat) : Bool :=
  let used := lengths.filter (· ≠ 0)
  used = [] || used = [1]

/-! ## Symbols -/

/-- The lengths of the fixed code for bytes and lengths. -/
def fixedLengths : List Nat :=
  List.replicate 144 8 ++ List.replicate 112 9 ++ List.replicate 24 7 ++ List.replicate 8 8

/-- The base and the number of extra bits of each length symbol, from 257 on. -/
def lengthTable : List (Nat × Nat) :=
  [(3, 0), (4, 0), (5, 0), (6, 0), (7, 0), (8, 0), (9, 0), (10, 0), (11, 1), (13, 1), (15, 1),
    (17, 1), (19, 2), (23, 2), (27, 2), (31, 2), (35, 3), (43, 3), (51, 3), (59, 3), (67, 4),
    (83, 4), (99, 4), (115, 4), (131, 5), (163, 5), (195, 5), (227, 5), (258, 0)]

/-- The base and the number of extra bits of each distance symbol. -/
def distanceTable : List (Nat × Nat) :=
  [(1, 0), (2, 0), (3, 0), (4, 0), (5, 1), (7, 1), (9, 2), (13, 2), (17, 3), (25, 3), (33, 4),
    (49, 4), (65, 5), (97, 5), (129, 6), (193, 6), (257, 7), (385, 7), (513, 8), (769, 8),
    (1025, 9), (1537, 9), (2049, 10), (3073, 10), (4097, 11), (6145, 11), (8193, 12), (12289, 12),
    (16385, 13), (24577, 13)]

/-- A value from a table: the base of a symbol plus its extra bits. -/
def extended? (table : List (Nat × Nat)) (symbol : Nat) (bits : Bits) : Option (Nat × Bits) := do
  let (base, extra) ← table[symbol]?
  let (more, rest) ← Bits.lowNumber? extra bits
  return (base + more, rest)

/-- Reads the symbols of one block. Each symbol takes at least one bit, so `fuel` is as many as
there are bits. -/
def symbols? (literals distances : Code) : Nat → Bits → Array UInt8 → Option (Bits × Array UInt8)
  | 0, _, _ => none
  | fuel + 1, bits, out => do
    let (symbol, bits) ← literals.read? bits
    if symbol < 256 then symbols? literals distances fuel bits (out.push (UInt8.ofNat symbol))
    else if symbol = 256 then return (bits, out)
    else
      let (length, bits) ← extended? lengthTable (symbol - 257) bits
      let (code, bits) ← distances.read? bits
      let (distance, bits) ← extended? distanceTable code bits
      symbols? literals distances fuel bits (repeatOutput distance length out)

/-! ## Described codes -/

/-- The order in which a block gives the lengths of its code for lengths. -/
def lengthOrder : List Nat := [16, 17, 18, 0, 8, 7, 9, 6, 10, 5, 11, 4, 12, 3, 13, 2, 14, 1, 15]

/-- How many byte and length symbols a block may describe codes for. -/
def maxLiterals : Nat := 286

/-- How many distance symbols a block may describe codes for. -/
def maxDistances : Nat := 30

/-- Reads a number of three-bit numbers. -/
def threeBitNumbers? : Nat → Bits → Option (List Nat × Bits)
  | 0, bits => some ([], bits)
  | n + 1, bits => do
    let (first, bits) ← Bits.lowNumber? 3 bits
    let (others, bits) ← threeBitNumbers? n bits
    return (first :: others, bits)

/-- Reads the code lengths that one symbol stands for: itself, a repetition of the last one found,
or a row of zeros. -/
def lengthRun? (symbol : Nat) (found : List Nat) (bits : Bits) : Option (List Nat × Bits) :=
  if symbol < 16 then some ([symbol], bits)
  else if symbol = 16 then do
    let last ← found.getLast?
    let (more, bits) ← Bits.lowNumber? 2 bits
    return (List.replicate (3 + more) last, bits)
  else if symbol = 17 then do
    let (more, bits) ← Bits.lowNumber? 3 bits
    return (List.replicate (3 + more) 0, bits)
  else do
    let (more, bits) ← Bits.lowNumber? 7 bits
    return (List.replicate (11 + more) 0, bits)

/-- Reads code lengths until exactly `count` are there. Each symbol stands for at least one, so
`fuel` is one more than are missing. -/
def codeLengths? (code : Code) (count : Nat) :
    Nat → List Nat → Bits → Option (List Nat × Bits)
  | 0, _, _ => none
  | fuel + 1, found, bits =>
    if found.length = count then some (found, bits)
    else do
      let (symbol, bits) ← code.read? bits
      let (run, bits) ← lengthRun? symbol found bits
      guard (found.length + run.length ≤ count)
      codeLengths? code count fuel (found ++ run) bits

/-- Reads the two codes that a block describes. The code for their lengths must fill the space of
codes; they themselves may be trivial instead. -/
def describedCodes? (bits : Bits) : Option (Code × Code × Bits) := do
  let (moreLiterals, bits) ← Bits.lowNumber? 5 bits
  let (moreDistances, bits) ← Bits.lowNumber? 5 bits
  let (moreLengths, bits) ← Bits.lowNumber? 4 bits
  let literals := moreLiterals + 257
  let distances := moreDistances + 1
  guard (literals ≤ maxLiterals ∧ distances ≤ maxDistances)
  let (given, bits) ← threeBitNumbers? (moreLengths + 4) bits
  let ordered := (List.range 19).map fun symbol =>
    ((lengthOrder.zip given).lookup symbol).getD 0
  guard (fillsSpace ordered)
  let total := literals + distances
  let (lengths, bits) ← codeLengths? (Code.ofLengths ordered) total (total + 1) [] bits
  let literalLengths := lengths.take literals
  let distanceLengths := lengths.drop literals
  guard (fillsSpace literalLengths || isTrivial literalLengths)
  guard (fillsSpace distanceLengths || isTrivial distanceLengths)
  return (Code.ofLengths literalLengths, Code.ofLengths distanceLengths, bits)

/-! ## Blocks -/

/-- Takes bytes as they are. -/
def rawBytes? : Nat → Bits → Array UInt8 → Option (Bits × Array UInt8)
  | 0, bits, out => some (bits, out)
  | n + 1, bits, out => do
    let (b, rest) ← Bits.lowNumber? 8 bits
    rawBytes? n rest (out.push (UInt8.ofNat b))

/-- Reads a block of bytes as they are: their number, its complement, and the bytes, after the bits
that fill up the byte. -/
def rawBlock? (bits : Bits) (out : Array UInt8) : Option (Bits × Array UInt8) := do
  let (length, bits) ← Bits.lowNumber? 16 (bits.drop (bits.length % 8))
  let (complement, bits) ← Bits.lowNumber? 16 bits
  guard (length + complement = 0xFFFF)
  rawBytes? length bits out

/-- Reads one block of the given type. -/
def block? (type : Nat) (bits : Bits) (out : Array UInt8) : Option (Bits × Array UInt8) :=
  match type with
  | 0 => rawBlock? bits out
  | 1 =>
    symbols? (Code.ofLengths fixedLengths) (Code.ofLengths (List.replicate 32 5)) bits.length bits
      out
  | 2 => do
    let (literals, distances, bits) ← describedCodes? bits
    symbols? literals distances bits.length bits out
  | _ => none

/-- Reads blocks up to the last one. Each takes at least three bits, so `fuel` is as many as there
are bits. -/
def blocks? : Nat → Bits → Array UInt8 → Option (Array UInt8)
  | 0, _, _ => none
  | fuel + 1, bits, out => do
    let (header, bits) ← Bits.lowNumber? 3 bits
    let (bits, out) ← block? (header / 2) bits out
    if header % 2 = 1 then return out else blocks? fuel bits out

/-- The bytes that deflated data restores to, `none` if the data does not come to the end of a last
block. -/
def inflate? (data : Bytes) : Option Bytes :=
  let bits := bitsOfBytes data
  (blocks? bits.length bits #[]).map Array.toList

end SourceJar.Archive.Inflate
