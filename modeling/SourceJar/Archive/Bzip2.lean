import SourceJar.Archive.Bits
import SourceJar.Archive.Bzip2.Gaps

/-!
Restoring bytes that were packed in sorted blocks.

A block is packed in four steps, which are undone here one after another. Rows of equal bytes are
shortened (`expandRuns`). The rotations of the block are sorted, and the last byte of each is kept,
with the place of the block itself among them (`unsorted`). Each of these bytes is written as its
place in a list of bytes, where it then moves to the front, and rows of the first place are written as
numbers (`column?`). The symbols this gives are written in codes that change every fifty symbols
(`symbols`).

Every reader gives nothing for data that ends early as well as for data that no block can hold. Each
block and the whole have checksums, which must fit. What follows the end is ignored.
-/

namespace SourceJar.Archive.Bzip2

/-- A reader of bits, the highest bit of each byte first. -/
abbrev Reader := StateT Bits Option

def bit : Reader Bool
  | [] => none
  | b :: rest => some (b, rest)

/-- A number of the given width. -/
def number (width : Nat) : Reader Nat := Bits.highNumber? width

/-! ## Checksums -/

/-- One step of the remainder: shift left, and subtract the polynomial if a bit fell out. -/
def checkShift (c : UInt32) : UInt32 :=
  if c >>> 31 = 1 then (c <<< 1) ^^^ 0x04C11DB7 else c <<< 1

/-- Takes one byte into the remainder. -/
def checkByte (c : UInt32) (b : UInt8) : UInt32 :=
  (List.range 8).foldl (fun c _ => checkShift c) (c ^^^ (b.toUInt32 <<< 24))

/-- The checksum of the bytes of a block. -/
def blockCheck (bytes : Array UInt8) : UInt32 := bytes.foldl checkByte 0xFFFFFFFF ^^^ 0xFFFFFFFF

/-- Takes the checksum of a block into the checksum of all blocks. -/
def combine (all block : UInt32) : UInt32 := ((all <<< 1) ||| (all >>> 31)) ^^^ block

/-! ## Codes -/

/-- The codes of one length: the first one, how many there are, and how many are shorter. -/
structure Row where
  first : Nat
  count : Nat
  shorter : Nat
  deriving DecidableEq, Repr

/-- A code for symbols: its rows for the lengths from one on, and its symbols, those with short codes
first. -/
structure Code where
  rows : List Row
  symbols : Array Nat
  deriving DecidableEq, Repr

/-- The greatest length of a code. -/
def maxLength : Nat := 20

/-- The rows of codes with the given lengths, from `length` on. -/
def rowsFrom (lengths : List Nat) : (more length first shorter : Nat) → List Row
  | 0, _, _, _ => []
  | more + 1, length, first, shorter =>
    let count := lengths.count length
    { first, count, shorter } ::
      rowsFrom lengths more (length + 1) ((first + count) * 2) (shorter + count)

/-- The code with the given lengths. -/
def Code.ofLengths (lengths : List Nat) : Code where
  rows := rowsFrom lengths maxLength 1 0 0
  symbols :=
    ((List.range maxLength).flatMap fun i =>
      (lengths.zipIdx.filter fun (length, _) => length == i + 1).map Prod.snd).toArray

/-- Reads the place of a symbol in its code, after the bits of `value`. -/
def placeIn : List Row → (value : Nat) → Reader Nat
  | [], _ => failure
  | row :: rows, value => do
    let value := value * 2 + (← bit).toNat
    if value < row.first + row.count then return row.shorter + (value - row.first)
    else placeIn rows value

/-- Reads a symbol. -/
def Code.symbol (code : Code) : Reader Nat := do
  let place ← placeIn code.rows 0
  code.symbols[place]?

/-- Reads the length of a code, given as steps up and down from the length before it. -/
def codeLength : (current : Nat) → Reader Nat
  | current, false :: rest => do
    guard (1 ≤ current ∧ current ≤ maxLength)
    return (current, rest)
  | current, true :: false :: rest => do
    guard (1 ≤ current ∧ current ≤ maxLength)
    codeLength (current + 1) rest
  | current, true :: true :: rest => do
    guard (1 ≤ current ∧ current ≤ maxLength)
    codeLength (current - 1) rest
  | _, _ => none

/-- Reads the lengths of the codes of `count` symbols. -/
def codeLengths : (count current : Nat) → Reader (List Nat)
  | 0, _ => return []
  | count + 1, current => do
    let length ← codeLength current
    return length :: (← codeLengths count length)

/-- Reads a number of codes for an alphabet. -/
def codes (alphabet : Nat) : (count : Nat) → Reader (List Code)
  | 0 => return []
  | count + 1 => do
    let code := Code.ofLengths (← codeLengths alphabet (← number 5))
    return code :: (← codes alphabet count)

/-! ## The front of a list -/

/-- The item at a place of a list, and the list with it at its front. -/
def toFront? {α : Type} (items : List α) (place : Nat) : Option (α × List α) :=
  items[place]?.map fun item => (item, item :: items.eraseIdx place)

/-- The items at places of a list in which each moves to the front. -/
def fromFront? {α : Type} : List α → List Nat → Option (List α)
  | _, [] => some []
  | items, place :: places => do
    let (item, items) ← toFront? items place
    return item :: (← fromFront? items places)

/-! ## Symbols -/

/-- Reads a number below `limit` as a row of ones that a zero ends. -/
def unary : (limit : Nat) → Reader Nat
  | 0 => failure
  | limit + 1 => do
    if ← bit then return (← unary limit) + 1 else return 0

/-- Reads a number of places of codes. -/
def places (limit : Nat) : (count : Nat) → Reader (List Nat)
  | 0 => return []
  | count + 1 => do
    let place ← unary limit
    return place :: (← places limit count)

/-- How many changes of codes count; more may be given. -/
def maxChanges : Nat := 18002

/-- How many symbols are written in one code. -/
def groupSize : Nat := 50

/-- Reads up to a number of symbols in one code, and says whether the symbol `stop` ended them. Those
found come last one first. -/
def group (code : Code) (stop : Nat) : Nat → List Nat → Reader (List Nat × Bool)
  | 0, found => return (found, false)
  | more + 1, found => do
    let symbol ← code.symbol
    if symbol = stop then return (found, true) else group code stop more (symbol :: found)

/-- Reads symbols in changing codes up to the symbol `stop`. -/
def symbols (stop : Nat) : List Code → List Nat → Reader (List Nat)
  | [], _ => failure
  | code :: codes, found => do
    let (found, ended) ← group code stop groupSize found
    if ended then return found.reverse else symbols stop codes found

/-- The bytes that a row of symbols stands for, so far. -/
structure Column where
  /-- The bytes in use, the one seen last at the front. -/
  order : List UInt8
  /-- What the next digit of a number counts. -/
  weight : Nat
  bytes : Array UInt8
  deriving Repr

/-- Takes in a symbol: a digit of the number of times that the first byte comes again, or the place of
another byte. -/
def Column.add? (limit : Nat) (column : Column) (symbol : Nat) : Option Column :=
  if symbol < 2 then do
    let first ← column.order.head?
    let count := column.weight * (symbol + 1)
    guard (column.bytes.size + count ≤ limit)
    return { column with
      weight := column.weight * 2
      bytes := column.bytes ++ Array.replicate count first }
  else do
    let (byte, order) ← toFront? column.order (symbol - 1)
    guard (column.bytes.size < limit)
    return { order, weight := 1, bytes := column.bytes.push byte }

/-- The bytes that symbols stand for, if they are not more than `limit`. -/
def column? (limit : Nat) (used : List UInt8) (symbols : List Nat) : Option (Array UInt8) :=
  (symbols.foldlM (Column.add? limit) { order := used, weight := 1, bytes := #[] }).map Column.bytes

/-! ## Blocks -/

/-- Reads which bytes are in use: which of sixteen rows, and which of each of those. -/
def usedBytes : Reader (List UInt8) := do
  let rows ← number 16
  (List.range 16).foldlM (fun used i => do
    if rows.testBit (15 - i) then
      let row ← number 16
      let here := (List.range 16).filter fun j => row.testBit (15 - j)
      return used ++ here.map fun j => UInt8.ofNat (16 * i + j)
    else return used) []

/-- The places of bytes, ordered by byte and then by place. -/
def sortedPlaces (bytes : Array UInt8) : Array Nat :=
  let buckets := bytes.toList.zipIdx.foldr (fun (b, i) buckets =>
    buckets.modify b.toNat (i :: ·)) (Array.replicate 256 [])
  buckets.foldl Array.appendList #[]

/-- Collects `count` bytes, going from place to place. -/
def collect (bytes : Array UInt8) (next : Array Nat) : (count place : Nat) → Array UInt8 →
    Array UInt8
  | 0, _, out => out
  | count + 1, place, out =>
    collect bytes next count (next.getD place 0) (out.push (bytes.getD place 0))

/-- The block whose sorted rotations end in the given bytes and that has the place `origin` among
them. -/
def unsorted? (bytes : Array UInt8) (origin : Nat) : Option (Array UInt8) :=
  let next := sortedPlaces bytes
  next[origin]?.map fun place => collect bytes next bytes.size place #[]

/-- Flips the lowest bits of bytes back, given how many are left of the gap and the gaps to come. -/
def unscramble : (left : Nat) → (coming : List Nat) → List UInt8 → List UInt8
  | _, _, [] => []
  | left, coming, b :: rest =>
    let (left, coming) := match left, coming with
      | 0, gap :: coming => (gap, coming)
      | 0, [] => (gaps.headD 0, gaps.tail)
      | left, coming => (left, coming)
    let left := left - 1
    (if left = 1 then b ^^^ 1 else b) :: unscramble left coming rest

/-- Makes shortened rows long again: four equal bytes are followed by the number of those left out.
`count` equal bytes have just been seen. -/
def expandRuns : (previous : UInt8) → (count : Nat) → List UInt8 → Array UInt8 →
    Option (Array UInt8)
  | _, count, [], out => if count = 4 then none else some out
  | previous, count, b :: rest, out =>
    if count = 4 then expandRuns b 0 rest (out ++ Array.replicate b.toNat previous)
    else if count ≠ 0 ∧ b = previous then expandRuns b (count + 1) rest (out.push b)
    else expandRuns b 1 rest (out.push b)

/-- Reads a block of at most `limit` bytes, before rows are made long; also its checksum. -/
def block (limit : Nat) : Reader (Array UInt8 × UInt32) := do
  let check := UInt32.ofNat (← number 32)
  let scrambled ← bit
  let origin ← number 24
  let used ← usedBytes
  guard (used ≠ [])
  let codeCount ← number 3
  guard (2 ≤ codeCount ∧ codeCount ≤ 6)
  let changeCount ← number 15
  guard (1 ≤ changeCount)
  let changes ← fromFront? (List.range codeCount) ((← places codeCount changeCount).take maxChanges)
  let table ← codes (used.length + 2) codeCount
  let symbols ← symbols (used.length + 1) (changes.filterMap fun i => table[i]?) []
  let column ← column? limit used symbols
  let sorted ← unsorted? column origin
  let plain := if scrambled then unscramble 0 gaps sorted.toList else sorted.toList
  let bytes ← expandRuns 0 0 plain #[]
  guard (blockCheck bytes = check)
  return (bytes, check)

/-- Stands before a block. -/
def blockMark : Nat := 0x314159265359

/-- Stands after the last block. -/
def endMark : Nat := 0x177245385090

/-- Reads blocks up to the end. Each takes more than a byte, so `fuel` is as many as there are
bytes. -/
def blocks (limit : Nat) : (fuel : Nat) → (check : UInt32) → Array UInt8 → Reader (Array UInt8)
  | 0, _, _ => failure
  | fuel + 1, check, out => do
    let mark ← number 48
    if mark = endMark then
      guard (UInt32.ofNat (← number 32) = check)
      return out
    else
      guard (mark = blockMark)
      let (bytes, own) ← block limit
      blocks limit fuel (combine check own) (out ++ bytes)

/-- The bytes that packed data restores to. The data says, in hundreds of thousands, how long a block
may be. -/
def restore? (data : Bytes) : Option Bytes :=
  match data with
  | 0x42 :: 0x5A :: 0x68 :: level :: rest =>
    if 0x31 ≤ level ∧ level ≤ 0x39 then
      let limit := 100000 * (level.toNat - 0x30)
      ((blocks limit rest.length 0 #[]).run' (rest.flatMap Bits.highFirst)).map Array.toList
    else none
  | _ => none

end SourceJar.Archive.Bzip2
