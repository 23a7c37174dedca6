import SourceJar.Archive.Unpacking

/-!
Restoring bytes from a row of decisions.

Packed data is one long binary fraction. A decision cuts the range that the fraction may lie in into
two parts, whose sizes go by how likely each outcome has been in its context, and the fraction tells
which part was taken. As the range shrinks, further bytes of the fraction are read; they are read as
soon as there is room for them, so data that comes to its end has been read to its end.

Decisions make up symbols: a byte, a copy of earlier output at a distance and of a length, or a mark at
the end. What a context is depends on the place in the output, on the kinds of the last symbols
(`State.phase`) and on the bits that came before in the same number.
-/

namespace SourceJar.Archive.Lzma

/-- How contexts are made. -/
structure Properties where
  /-- How many bits of the byte before count for a byte. -/
  previousBits : Nat
  /-- How many bits of the place count for a byte. -/
  literalPlaceBits : Nat
  /-- How many bits of the place count for other decisions. -/
  placeBits : Nat
  deriving DecidableEq, Repr

/-- The properties that a byte stands for. -/
def Properties.ofByte? (b : UInt8) : Option Properties :=
  let n := b.toNat
  if n < 225 then
    some { previousBits := n % 9, literalPlaceBits := n / 9 % 5, placeBits := n / 45 }
  else none

/-- What has been restored, and what is left of the data. -/
structure State where
  range : UInt32
  code : UInt32
  input : Bytes
  /-- How likely the outcome zero is in each context, in parts of 2048. -/
  chances : Array UInt16
  /-- The kinds of the last symbols: below 7 if the last one is a byte. -/
  phase : Nat
  /-- The last four distances, each less one. -/
  recent : Nat × Nat × Nat × Nat
  out : Array UInt8
  /-- Where in the output the bytes start that copies may reach. -/
  start : Nat
  deriving Repr

/-- A step through the data. A stop leaves the bytes restored so far. -/
abbrev Step := EStateM Stop State

/-! ## Contexts -/

namespace Context

/-- Is the symbol something else than a byte? -/
def isCopy (phase place : Nat) : Nat := 16 * phase + place

/-- Is the distance one of the last four? -/
def isRecent (phase : Nat) : Nat := 192 + phase

/-- Is it another one than the last? -/
def isOlder (phase : Nat) : Nat := 204 + phase

/-- Is it another one than the last two? -/
def isThird (phase : Nat) : Nat := 216 + phase

/-- Is it the fourth? -/
def isFourth (phase : Nat) : Nat := 228 + phase

/-- Is the copy from the last distance longer than a byte? -/
def isLong (phase place : Nat) : Nat := 240 + 16 * phase + place

/-- The size of a distance, for one of four kinds of lengths. -/
def distanceSize (kind : Nat) : Nat := 432 + 64 * kind

/-- The bits of a distance of middle size. -/
def distanceBits : Nat := 688

/-- The lowest bits of a distance of great size. -/
def lowDistanceBits : Nat := 803

/-- The length of a copy from a new distance. -/
def newLength : Nat := 819

/-- The length of a copy from a recent distance. -/
def recentLength : Nat := 1333

/-- The bits of a byte, for one of the kinds that the properties tell apart. -/
def byte (kind : Nat) : Nat := 1847 + 768 * kind

/-- How many contexts there are. -/
def count (p : Properties) : Nat := byte (twoTo (p.previousBits + p.literalPlaceBits))

end Context

/-- Forgets what is likely. -/
def State.reset (p : Properties) (s : State) : State :=
  { s with
    chances := Array.replicate (Context.count p) 1024
    phase := 0
    recent := (0, 0, 0, 0) }

/-! ## Decisions -/

/-- Reads a byte if there is room for it. -/
def normalize : Step Unit := do
  let s ← get
  if s.range < 0x1000000 then
    match s.input with
    | [] => throw .cut
    | b :: input =>
      set { s with range := s.range <<< 8, code := (s.code <<< 8) ||| b.toUInt32, input }

/-- Reads a decision in a context, and learns from it. -/
def decision (context : Nat) : Step Bool := do
  let s ← get
  let chance := s.chances.getD context 1024
  let bound := (s.range >>> 11) * chance.toUInt32
  if s.code < bound then
    let better := chance + ((2048 - chance) >>> 5)
    set { s with range := bound, chances := s.chances.setIfInBounds context better }
    normalize
    return false
  else
    let worse := chance - (chance >>> 5)
    set { s with
      range := s.range - bound
      code := s.code - bound
      chances := s.chances.setIfInBounds context worse }
    normalize
    return true

/-- Reads a decision whose outcomes are equally likely. -/
def evenDecision : Step Bool := do
  let s ← get
  let half := s.range >>> 1
  if s.code < half then
    set { s with range := half }
    normalize
    return false
  else
    set { s with range := half, code := s.code - half }
    normalize
    return true

/-- Reads bits whose values are equally likely, the highest first, after those of `value`. -/
def evenBits : (width value : Nat) → Step Nat
  | 0, value => return value
  | width + 1, value => do
    let bit ← evenDecision
    evenBits width (2 * value + bit.toNat)

/-- Reads bits, the highest first, each in the context of those before it. A one stands before the
bits in `value`. -/
def bitsAfter (base : Nat) : (width value : Nat) → Step Nat
  | 0, value => return value
  | width + 1, value => do
    let bit ← decision (base + value)
    bitsAfter base width (2 * value + bit.toNat)

/-- Reads a number, its highest bit first. -/
def highBits (base width : Nat) : Step Nat := return (← bitsAfter base width 1) - twoTo width

/-- Reads a number, its lowest bit first, in the context of the bits in `node`. -/
def lowBitsAfter (base : Nat) : (width node : Nat) → Step Nat
  | 0, _ => return 0
  | width + 1, node => do
    let bit ← decision (base + node)
    return bit.toNat + 2 * (← lowBitsAfter base width (2 * node + bit.toNat))

/-- Reads a number, its lowest bit first. -/
def lowBits (base width : Nat) : Step Nat := lowBitsAfter base width 1

/-! ## Symbols -/

/-- How many bytes copies may reach. -/
def State.reach (s : State) : Nat := s.out.size - s.start

/-- Repeats output from a distance, if it is not too far. -/
def copy (dictionary length distance : Nat) : Step Unit := do
  let s ← get
  if distance ≤ s.reach ∧ distance ≤ dictionary then
    set { s with out := repeatOutput distance length s.out }
  else throw .corrupt

/-- Reads the bits of a byte while they are those of an expected one, and the rest after that. -/
def bitsBeside (base : Nat) : (width expected value : Nat) → Step Nat
  | 0, _, value => return value
  | width + 1, expected, value => do
    let next := expected / 128 % 2
    let bit ← decision (base + 256 * (1 + next) + value)
    let value := 2 * value + bit.toNat
    if bit.toNat = next then bitsBeside base width (2 * expected) value
    else bitsAfter base width value

/-- Reads a byte. After a copy, the byte that would have been copied next is unlikely. -/
def byte (p : Properties) (dictionary : Nat) : Step Unit := do
  let s ← get
  let previous := if s.reach = 0 then 0 else (s.out.back?.getD 0).toNat
  let kind := s.reach % twoTo p.literalPlaceBits * twoTo p.previousBits +
    previous / twoTo (8 - p.previousBits)
  let base := Context.byte kind
  let distance := s.recent.1 + 1
  let value ←
    if s.phase < 7 then bitsAfter base 8 1
    else if distance ≤ s.reach ∧ distance ≤ dictionary then
      bitsBeside base 8 (byteBack distance s.out).toNat 1
    else throw .corrupt
  modify fun s => { s with
    out := s.out.push (UInt8.ofNat (value - 256))
    phase := if s.phase < 4 then 0 else if s.phase < 10 then s.phase - 3 else s.phase - 6 }

/-- Reads the length of a copy, less two. -/
def copyLength (base place : Nat) : Step Nat := do
  if ← decision base then
    if ← decision (base + 1) then return (← highBits (base + 258) 8) + 16
    else return (← highBits (base + 130 + 8 * place) 3) + 8
  else highBits (base + 2 + 8 * place) 3

/-- Reads a distance, less one: its size, then its lower bits. -/
def newDistance (length : Nat) : Step Nat := do
  let size ← highBits (Context.distanceSize (min length 3)) 6
  if size < 4 then return size
  else
    let width := size / 2 - 1
    let high := (2 + size % 2) * twoTo width
    if size < 14 then return high + (← lowBits (Context.distanceBits + high - size) width)
    else
      let middle ← evenBits (width - 4) 0
      return high + 16 * middle + (← lowBits Context.lowDistanceBits 4)

/-- The distance, less one, that stands for the end of the data. -/
def endDistance : Nat := 0xFFFFFFFF

/-- Reads which of the last four distances a copy has, and makes it the last one. -/
def recentDistance (phase : Nat) : Step Unit := do
  if ← decision (Context.isThird phase) then
    if ← decision (Context.isFourth phase) then
      modify fun s => let (a, b, c, d) := s.recent; { s with recent := (d, a, b, c) }
    else modify fun s => let (a, b, c, d) := s.recent; { s with recent := (c, a, b, d) }
  else modify fun s => let (a, b, c, d) := s.recent; { s with recent := (b, a, c, d) }

/-- Reads a symbol, and says whether it marks the end. -/
def symbol (p : Properties) (dictionary : Nat) : Step Bool := do
  let s ← get
  let phase := s.phase
  let place := s.reach % twoTo p.placeBits
  if !(← decision (Context.isCopy phase place)) then
    byte p dictionary
    return false
  else if !(← decision (Context.isRecent phase)) then
    let length ← copyLength Context.newLength place
    let distance ← newDistance length
    modify fun s =>
      let (a, b, c, _) := s.recent
      { s with recent := (distance, a, b, c), phase := if phase < 7 then 7 else 10 }
    if distance = endDistance then return true
    else
      copy dictionary (length + 2) (distance + 1)
      return false
  else if !(← decision (Context.isOlder phase)) then
    if ← decision (Context.isLong phase place) then
      let length ← copyLength Context.recentLength place
      modify fun s => { s with phase := if phase < 7 then 8 else 11 }
      copy dictionary (length + 2) ((← get).recent.1 + 1)
    else
      modify fun s => { s with phase := if phase < 7 then 9 else 11 }
      copy dictionary 1 ((← get).recent.1 + 1)
    return false
  else
    recentDistance phase
    let length ← copyLength Context.recentLength place
    modify fun s => { s with phase := if phase < 7 then 8 else 11 }
    copy dictionary (length + 2) ((← get).recent.1 + 1)
    return false

end SourceJar.Archive.Lzma
