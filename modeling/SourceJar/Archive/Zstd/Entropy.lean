import SourceJar.Archive.Bits
import SourceJar.Archive.Unpacking

/-!
Symbols coded by states.

A table has a cell for each state. A cell has a symbol, and says how many bits to read for the next
state, and what to add to them. A symbol has as many cells as it is frequent; how frequent symbols are
is written before the table, in numbers that get shorter as less is left to share out.

The bits that choose states, like those of other codes of the format, are read from the end of their
bytes: the highest bit of the last byte that is set marks their start.
-/

namespace SourceJar.Archive.Zstd

/-- A reader of bits from the end of some bytes. -/
abbrev BackReader := StateT Bits Option

/-- The bits of some bytes from their end, after the mark. -/
def backward? (bytes : Bytes) : Option Bits := do
  let last ← bytes.getLast?
  guard (last ≠ 0)
  return ((bytes.reverse.flatMap Bits.highFirst).dropWhile (!·)).drop 1

/-- A number of the given width. -/
def backNumber (width : Nat) : BackReader Nat := Bits.highNumber? width

/-! ## Tables -/

/-- What a state stands for. -/
structure Cell where
  symbol : Nat
  /-- How many bits are read for the next state. -/
  width : Nat
  /-- What is added to them. -/
  base : Nat
  deriving DecidableEq, Repr, Inhabited

/-- A table of states. -/
structure Table where
  /-- How many bits are read for the first state. -/
  log : Nat
  cells : Array Cell
  deriving DecidableEq, Repr

/-- How frequent symbols are, from symbol 0 on, in parts of the table; symbols less frequent than one
part have -1. -/
abbrev Counts := List Int

/-- The places of a table in the order in which symbols with parts of it are laid out. Symbols without
take up `rare` places at its end. -/
def layout (log rare : Nat) : List Nat :=
  let size := twoTo log
  let step := size / 2 + size / 8 + 3
  ((List.range size).map fun i => i * step % size).filter (· + rare < size)

/-- The symbols in the places of a table. -/
def laidOut (log : Nat) (counts : Counts) : Array Nat :=
  let size := twoTo log
  let rare := (counts.zipIdx.filter fun (n, _) => n = -1).map Prod.snd
  let common := counts.zipIdx.flatMap fun (n, symbol) => List.replicate n.toNat symbol
  let start := (rare.zipIdx.foldl (fun cells (symbol, i) =>
    cells.setIfInBounds (size - 1 - i) symbol) (Array.replicate size 0))
  ((layout log rare.length).zip common).foldl (fun cells (place, symbol) =>
    cells.setIfInBounds place symbol) start

/-- The table in which symbols are as frequent as given. The cells of a symbol lead to states in order,
so that all states can be reached from any symbol. -/
def Table.ofCounts (log : Nat) (counts : Counts) : Table where
  log
  cells :=
    let first := (counts.map fun n => if n = -1 then 1 else n.toNat).toArray
    ((laidOut log counts).foldl (fun (cells, next) symbol =>
      let state : Nat := next.getD symbol 1
      let width := log - Nat.log2 state
      (cells.push { symbol, width, base := state * twoTo width - twoTo log },
        next.setIfInBounds symbol (state + 1))) ((#[] : Array Cell), first)).1

/-- The table with a single state. -/
def Table.single (symbol : Nat) : Table where
  log := 0
  cells := #[{ symbol, width := 0, base := 0 }]

/-! ## Frequencies -/

/-- Bits that are still to be read, the lowest of a byte first, and how many have been. After the last
bit there are zeros. -/
structure Ahead where
  bits : Bits
  used : Nat
  deriving DecidableEq, Repr

/-- The number that the next bits make up. -/
def Ahead.peek (ahead : Ahead) (width : Nat) : Nat :=
  (ahead.bits.take width).foldr (fun bit high => 2 * high + bit.toNat) 0

def Ahead.skip (ahead : Ahead) (width : Nat) : Ahead where
  bits := ahead.bits.drop width
  used := ahead.used + width

/-- Reads how many symbols without a cell follow: threes and a last smaller number of two bits each. -/
def zeroRun : (fuel : Nat) → Ahead → Nat × Ahead
  | 0, ahead => (0, ahead)
  | fuel + 1, ahead =>
    let n := ahead.peek 2
    if n = 3 then
      let (more, ahead) := zeroRun fuel (ahead.skip 2)
      (3 + more, ahead)
    else (n, ahead.skip 2)

/-- Reads one frequency while `left` less one parts are left. The smaller numbers take a bit less. -/
def oneCount (left : Nat) (ahead : Ahead) : Int × Ahead :=
  let half := twoTo (Nat.log2 left)
  let short := 2 * half - 1 - left
  let width := Nat.log2 left + 1
  let low := ahead.peek (width - 1)
  if low < short then ((low : Int) - 1, ahead.skip (width - 1))
  else
    let n := ahead.peek width
    ((if half ≤ n then n - short else n : Nat) - 1, ahead.skip width)

/-- Reads frequencies until all parts are shared out, of at most `most` symbols. Those found come last
one first. -/
def countsFrom (most : Nat) : (fuel left : Nat) → Counts → Ahead → Option (Counts × Ahead)
  | 0, _, _, _ => none
  | fuel + 1, left, found, ahead => do
    guard (found.length < most)
    let (n, ahead) := oneCount left ahead
    let left := left - n.natAbs
    if left ≤ 1 then
      guard (left = 1)
      return (n :: found, ahead)
    else if n = 0 then
      let (more, ahead) := zeroRun most ahead
      countsFrom most fuel left (List.replicate more 0 ++ n :: found) ahead
    else countsFrom most fuel left (n :: found) ahead

/-- Reads a table for at most `most` symbols and of at most `maxLog` bits from the front of some bytes;
also what follows it. -/
def table? (most maxLog : Nat) (bytes : Bytes) : Option (Table × Bytes) := do
  let ahead : Ahead := { bits := bytes.flatMap Bits.lowFirst, used := 0 }
  let log := ahead.peek 4 + 5
  guard (log ≤ maxLog)
  let (counts, ahead) ← countsFrom most most (twoTo log + 1) [] (ahead.skip 4)
  let length := (ahead.used + 7) / 8
  guard (length ≤ bytes.length)
  return (Table.ofCounts log counts.reverse, bytes.drop length)

/-! ## States -/

/-- Reads the first state. -/
def Table.first (table : Table) : BackReader Nat := backNumber table.log

/-- The cell of a state. -/
def Table.cell (table : Table) (state : Nat) : Cell := table.cells.getD state default

/-- Reads the state after one. -/
def Table.next (table : Table) (state : Nat) : BackReader Nat := do
  let cell := table.cell state
  return cell.base + (← backNumber cell.width)

end SourceJar.Archive.Zstd
