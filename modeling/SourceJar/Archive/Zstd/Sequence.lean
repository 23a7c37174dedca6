import SourceJar.Archive.LittleEndian
import SourceJar.Archive.Unpacking
import SourceJar.Archive.Zstd.Entropy

/-!
The sequences of a block: how many literals are taken, and what is copied after them.

Three tables give the symbols of the number of literals, of the distance and of the length of the copy;
symbols of greater values are followed by extra bits. Small values of a distance stand for recent
distances.
-/

namespace SourceJar.Archive.Zstd

/-! ## Symbols -/

/-- The base and the number of extra bits of each symbol for a number of literals. -/
def literalSymbols : List (Nat × Nat) :=
  (List.range 16).map (·, 0) ++
  [(16, 1), (18, 1), (20, 1), (22, 1), (24, 2), (28, 2), (32, 3), (40, 3), (48, 4), (64, 6),
    (128, 7), (256, 8), (512, 9), (1024, 10), (2048, 11), (4096, 12), (8192, 13), (16384, 14),
    (32768, 15), (65536, 16)]

/-- The base and the number of extra bits of each symbol for the length of a copy. -/
def lengthSymbols : List (Nat × Nat) :=
  (List.range 32).map (fun i => (i + 3, 0)) ++
  [(35, 1), (37, 1), (39, 1), (41, 1), (43, 2), (47, 2), (51, 3), (59, 3), (67, 4), (83, 4),
    (99, 5), (131, 7), (259, 8), (515, 9), (1027, 10), (2051, 11), (4099, 12), (8195, 13),
    (16387, 14), (32771, 15), (65539, 16)]

/-- The base and the number of extra bits of each symbol for a distance. -/
def distanceSymbols : List (Nat × Nat) := (List.range 32).map fun i => (twoTo i, i)

/-- What symbols stand for, with the table that is used unless a block has another. -/
structure Alphabet where
  symbols : Array (Nat × Nat)
  /-- The greatest number of bits for a state. -/
  maxLog : Nat
  standard : Table

def literalCounts : Alphabet where
  symbols := literalSymbols.toArray
  maxLog := 9
  standard := .ofCounts 6 [4, 3, 2, 2, 2, 2, 2, 2, 2, 2, 2, 2, 2, 1, 1, 1, 2, 2, 2, 2, 2, 2, 2, 2, 2,
    3, 2, 1, 1, 1, 1, 1, -1, -1, -1, -1]

def distances : Alphabet where
  symbols := distanceSymbols.toArray
  maxLog := 8
  standard := .ofCounts 5 [1, 1, 1, 1, 1, 1, 2, 2, 2, 1, 1, 1, 1, 1, 1, 1, 1, 1, 1, 1, 1, 1, 1, 1, -1,
    -1, -1, -1, -1]

def copyLengths : Alphabet where
  symbols := lengthSymbols.toArray
  maxLog := 9
  standard := .ofCounts 6 [1, 4, 3, 2, 2, 2, 2, 2, 2, 1, 1, 1, 1, 1, 1, 1, 1, 1, 1, 1, 1, 1, 1, 1, 1,
    1, 1, 1, 1, 1, 1, 1, 1, 1, 1, 1, 1, 1, 1, 1, 1, 1, 1, 1, 1, 1, -1, -1, -1, -1, -1, -1, -1]

/-- The tables of the three alphabets. -/
structure Tables where
  literals : Table
  distance : Table
  length : Table
  deriving DecidableEq, Repr

/-- Reads the table of an alphabet in one of four ways: the standard one, one for a single symbol, one
of its own, or the one of an earlier block. -/
def alphabetTable (alphabet : Alphabet) (earlier : Option Table) (way : Nat) : ByteReader Table :=
  match way with
  | 0 => return alphabet.standard
  | 1 => do
    let symbol := (← ByteReader.byte).toNat
    guard (symbol < alphabet.symbols.size)
    return .single symbol
  | 2 => fun bytes => table? alphabet.symbols.size alphabet.maxLog bytes
  | _ => earlier

/-- Reads the number of sequences. -/
def sequenceCount : ByteReader Nat := do
  let first := (← ByteReader.byte).toNat
  if first < 0x80 then return first
  else if first < 0xFF then return 256 * (first - 0x80) + (← ByteReader.byte).toNat
  else return (← ByteReader.number 2) + 0x7F00

/-- Reads the three tables, by a byte that says in which ways. -/
def tables (earlier : Option Tables) : ByteReader Tables := do
  let ways := (← ByteReader.byte).toNat
  guard (ways % 4 = 0)
  let literals ← alphabetTable literalCounts (earlier.map Tables.literals) (ways / 64)
  let distance ← alphabetTable distances (earlier.map Tables.distance) (ways / 16 % 4)
  let length ← alphabetTable copyLengths (earlier.map Tables.length) (ways / 4 % 4)
  return { literals, distance, length }

/-! ## Sequences -/

/-- A number of literals, and a copy after them: the value of its distance and its length. -/
structure Sequence where
  literals : Nat
  distance : Nat
  length : Nat
  deriving DecidableEq, Repr

/-- Reads the extra bits of the symbol of a state. -/
def Alphabet.value (alphabet : Alphabet) (table : Table) (state : Nat) : BackReader Nat := do
  let (base, extra) ← alphabet.symbols[(table.cell state).symbol]?
  return base + (← backNumber extra)

/-- Reads sequences, given the states of the three tables. Between two sequences the states change. -/
def sequencesFrom (tables : Tables) :
    (count : Nat) → (literals distance length : Nat) → List Sequence → BackReader (List Sequence)
  | 0, _, _, _, found => return found.reverse
  | count + 1, literals, distance, length, found => do
    let distanceValue ← distances.value tables.distance distance
    let lengthValue ← copyLengths.value tables.length length
    let literalsValue ← literalCounts.value tables.literals literals
    let found := ⟨literalsValue, distanceValue, lengthValue⟩ :: found
    if count = 0 then return found.reverse
    else
      let literals ← tables.literals.next literals
      let length ← tables.length.next length
      let distance ← tables.distance.next distance
      sequencesFrom tables count literals distance length found

/-- The sequences in a row of bits, which must come to its end with them. -/
def sequences? (tables : Tables) (count : Nat) (data : Bytes) : Option (List Sequence) := do
  let reader : BackReader (List Sequence) := do
    let literals ← tables.literals.first
    let distance ← tables.distance.first
    let length ← tables.length.first
    sequencesFrom tables count literals distance length []
  let (sequences, rest) ← reader.run (← backward? data)
  guard rest.isEmpty
  return sequences

/-! ## Running them -/

/-- The last three distances, the latest first. -/
abbrev Recent := Nat × Nat × Nat

/-- The distances before the first sequence. -/
def Recent.start : Recent := (1, 4, 8)

/-- The distance that a value stands for, and the recent ones with it. Without literals before the copy,
the last distance itself is passed over. -/
def Recent.take? (recent : Recent) (value literals : Nat) : Option (Nat × Recent) :=
  let (a, b, c) := recent
  if 3 < value then some (value - 3, value - 3, a, b)
  else
    match if literals = 0 then value + 1 else value with
    | 1 => some (a, recent)
    | 2 => some (b, b, a, c)
    | 3 => some (c, c, a, b)
    | _ => if a = 1 then none else some (a - 1, a - 1, a, b)

/-- What a block has been restored to, so far. -/
structure Progress where
  out : Array UInt8
  /-- How many literals have been taken. -/
  taken : Nat
  recent : Recent
  deriving Repr

/-- Adds literals to the output. -/
def addLiterals (literals : Array UInt8) (start stop : Nat) (out : Array UInt8) : Array UInt8 :=
  out ++ literals.extract start stop

/-- Runs a sequence. Copies reach back to `start` in the output, which may not grow past `limit`. -/
def Progress.run? (literals : Array UInt8) (start limit : Nat) (progress : Progress)
    (sequence : Sequence) : Option Progress := do
  let taken := progress.taken + sequence.literals
  guard (taken ≤ literals.size)
  let (distance, recent) ← progress.recent.take? sequence.distance sequence.literals
  let reach := progress.out.size + sequence.literals - start
  guard (distance ≤ reach)
  guard (progress.out.size + sequence.literals + sequence.length ≤ limit)
  let out := addLiterals literals progress.taken taken progress.out
  return { out := repeatOutput distance sequence.length out, taken, recent }

end SourceJar.Archive.Zstd
