import SourceJar.Archive.Unpacking

/-!
Filters: changes that were made to bytes before they were packed, undone.

One filter turned bytes into differences from bytes a fixed distance before them. The others turned
the relative targets of branches in the code of a machine into absolute ones, so that branches to one
target look alike; a row of bytes counts as a branch if it has the form of one.
-/

namespace SourceJar.Archive.Xz

/-- The machines whose branches filters know. -/
inductive Machine where
  | x86
  | powerPc
  | ia64
  | arm
  | armThumb
  | sparc
  deriving DecidableEq, Repr

/-- A change that was made to bytes. -/
inductive Filter where
  | delta (distance : Nat)
  /-- The branches of a machine, for code that lies at an address. -/
  | branches (machine : Machine) (address : UInt32)
  deriving DecidableEq, Repr

/-- What the address of a machine's code is a multiple of. -/
def Machine.alignment : Machine → Nat
  | .x86 => 1
  | .powerPc => 4
  | .ia64 => 16
  | .arm => 4
  | .armThumb => 2
  | .sparc => 4

/-! ## Differences -/

/-- Adds to each byte the restored one at a distance before it. -/
def undoDelta (distance : Nat) (bytes : Array UInt8) : Array UInt8 :=
  bytes.foldl (fun out b =>
    out.push (b + if distance ≤ out.size then out.getD (out.size - distance) 0 else 0)) #[]

/-! ## Branches -/

/-- The byte at a place, as a word. -/
def wordAt (bytes : Array UInt8) (i : Nat) : UInt32 := (bytes.getD i 0).toUInt32

/-- Puts the lowest byte of a word at a place. -/
def put (bytes : Array UInt8) (i : Nat) (word : UInt32) : Array UInt8 :=
  bytes.setIfInBounds i word.toUInt8

/-- How a machine's branch is undone: the address of a place, the bytes and the place give the bytes
and how far the next place is. -/
abbrev Undo := UInt32 → Array UInt8 → Nat → Array UInt8 × Nat

/-- Goes through the places at which `width` bytes are left. -/
def undoAll (width : Nat) (undo : Undo) (address : UInt32) :
    (fuel : Nat) → (place : Nat) → Array UInt8 → Array UInt8
  | 0, _, bytes => bytes
  | fuel + 1, i, bytes =>
    if i + width ≤ bytes.size then
      let (bytes, step) := undo (address + UInt32.ofNat i) bytes i
      undoAll width undo address fuel (i + step) bytes
    else bytes

def undoPowerPc : Undo := fun address bytes i =>
  if wordAt bytes i >>> 2 = 0x12 ∧ wordAt bytes (i + 3) &&& 3 = 1 then
    let target := ((wordAt bytes i &&& 3) <<< 24) ||| (wordAt bytes (i + 1) <<< 16) |||
      (wordAt bytes (i + 2) <<< 8) ||| (wordAt bytes (i + 3) &&& 0xFC)
    let way := target - address
    let bytes := put bytes i (((way >>> 24) &&& 3) ||| 0x48)
    let bytes := put bytes (i + 1) (way >>> 16)
    let bytes := put bytes (i + 2) (way >>> 8)
    (put bytes (i + 3) ((wordAt bytes (i + 3) &&& 3) ||| way), 4)
  else (bytes, 4)

def undoArm : Undo := fun address bytes i =>
  if wordAt bytes (i + 3) = 0xEB then
    let target := (wordAt bytes (i + 2) <<< 16) ||| (wordAt bytes (i + 1) <<< 8) ||| wordAt bytes i
    let way := ((target <<< 2) - (address + 8)) >>> 2
    (put (put (put bytes (i + 2) (way >>> 16)) (i + 1) (way >>> 8)) i way, 4)
  else (bytes, 4)

def undoArmThumb : Undo := fun address bytes i =>
  if wordAt bytes (i + 1) &&& 0xF8 = 0xF0 ∧ wordAt bytes (i + 3) &&& 0xF8 = 0xF8 then
    let target := ((wordAt bytes (i + 1) &&& 7) <<< 19) ||| (wordAt bytes i <<< 11) |||
      ((wordAt bytes (i + 3) &&& 7) <<< 8) ||| wordAt bytes (i + 2)
    let way := ((target <<< 1) - (address + 4)) >>> 1
    let bytes := put bytes (i + 1) (((way >>> 19) &&& 7) ||| 0xF0)
    let bytes := put bytes i (way >>> 11)
    let bytes := put bytes (i + 3) (((way >>> 8) &&& 7) ||| 0xF8)
    (put bytes (i + 2) way, 4)
  else (bytes, 2)

def undoSparc : Undo := fun address bytes i =>
  let (first, second) := (wordAt bytes i, wordAt bytes (i + 1) &&& 0xC0)
  if (first = 0x40 ∧ second = 0) ∨ (first = 0x7F ∧ second = 0xC0) then
    let target := (first <<< 24) ||| (wordAt bytes (i + 1) <<< 16) |||
      (wordAt bytes (i + 2) <<< 8) ||| wordAt bytes (i + 3)
    let way := ((target <<< 2) - address) >>> 2
    let sign := (if (way >>> 22) &&& 1 = 1 then 0x3FC00000 else 0 : UInt32)
    let way := sign ||| (way &&& 0x3FFFFF) ||| 0x40000000
    let bytes := put bytes i (way >>> 24)
    let bytes := put bytes (i + 1) (way >>> 16)
    let bytes := put bytes (i + 2) (way >>> 8)
    (put bytes (i + 3) way, 4)
  else (bytes, 4)

/-- Which of the three instructions of a bundle are branches, by the form of the bundle. -/
def branchSlots : List Nat :=
  List.replicate 16 0 ++ [4, 4, 6, 6, 0, 0, 7, 7, 4, 4, 0, 0, 4, 4, 0, 0]

/-- Undoes the branch in one of the three instructions of a bundle. -/
def undoSlot (address : UInt32) (i : Nat) (bytes : Array UInt8) (slot : Nat) : Array UInt8 :=
  let bit := 5 + 41 * slot
  let first := i + bit / 8
  let shift := bit % 8
  let whole := (List.range 6).foldl (fun n j => n + (bytes.getD (first + j) 0).toNat * twoTo (8 * j)) 0
  let instruction := whole / twoTo shift
  if instruction / twoTo 37 % 16 = 5 ∧ instruction / twoTo 9 % 8 = 0 then
    let target := instruction / twoTo 13 % twoTo 20 + instruction / twoTo 36 % 2 * twoTo 20
    let way := ((UInt32.ofNat (16 * target) - address) >>> 4).toNat
    let rest := instruction - instruction / twoTo 13 % twoTo 20 * twoTo 13 -
      instruction / twoTo 36 % 2 * twoTo 36
    let changed := rest + way % twoTo 20 * twoTo 13 + way / twoTo 20 % 2 * twoTo 36
    let whole := whole % twoTo shift + changed * twoTo shift
    (List.range 6).foldl (fun bytes j =>
      bytes.setIfInBounds (first + j) (UInt8.ofNat (whole / twoTo (8 * j)))) bytes
  else bytes

def undoIa64 : Undo := fun address bytes i =>
  let slots := branchSlots.getD ((bytes.getD i 0).toNat % 32) 0
  (((List.range 3).filter slots.testBit).foldl (undoSlot address i) bytes, 16)

/-! ## Branches of x86 -/

/-- Whether a byte is the highest of a small positive or negative number. -/
def isSign (word : UInt32) : Bool := word = 0 || word = 0xFF

/-- What is remembered of the branch codes seen in the last bytes. -/
structure Recent where
  /-- Which of the last bytes were such codes, and which of those had a sign. -/
  mask : UInt32
  /-- Where the last one stands. -/
  place : UInt32
  deriving DecidableEq, Repr

/-- How many bytes of a target the codes before it leave alone. -/
def keptBytes (mask : UInt32) : Nat := [0, 1, 2, 2, 3, 3, 3, 3].getD (mask >>> 1).toNat 0

/-- The way to a target from `next`, tried again while the bytes that are left alone could be those of
a sign. -/
def x86Way (mask next : UInt32) : (fuel : Nat) → (target : UInt32) → UInt32
  | 0, target => target - next
  | fuel + 1, target =>
    let way := target - next
    let kept := keptBytes mask
    if mask = 0 || !isSign ((way >>> UInt32.ofNat (24 - 8 * kept)) &&& 0xFF) then way
    else x86Way mask next fuel (way ^^^ UInt32.ofNat (twoTo (32 - 8 * kept) - 1))

/-- The mask after a number of bytes. -/
def passed (mask : UInt32) (count : UInt32) : UInt32 :=
  if 5 < count then 0
  else (List.range count.toNat).foldl (fun mask _ => (mask &&& 0x77) <<< 1) mask

/-- Goes through the places at which five bytes are left. -/
def undoX86 (address : UInt32) : (fuel : Nat) → (place : Nat) → Recent → Array UInt8 → Array UInt8
  | 0, _, _, bytes => bytes
  | fuel + 1, i, recent, bytes =>
    if bytes.size < i + 5 then bytes
    else if wordAt bytes i &&& 0xFE ≠ 0xE8 then undoX86 address fuel (i + 1) recent bytes
    else
      let here := address + UInt32.ofNat i
      let mask := passed recent.mask (here - recent.place)
      let sign := wordAt bytes (i + 4)
      let allowed := [0, 1, 2, 4].contains ((mask >>> 1) &&& 7).toNat && mask >>> 1 < 0x10
      if isSign sign && allowed then
        let target := (sign <<< 24) ||| (wordAt bytes (i + 3) <<< 16) |||
          (wordAt bytes (i + 2) <<< 8) ||| wordAt bytes (i + 1)
        let way := x86Way mask (here + 5) 32 target
        let bytes := put bytes (i + 4) (if (way >>> 24) &&& 1 = 1 then 0xFF else 0)
        let bytes := put bytes (i + 3) (way >>> 16)
        let bytes := put bytes (i + 2) (way >>> 8)
        let bytes := put bytes (i + 1) way
        undoX86 address fuel (i + 5) { mask := 0, place := here } bytes
      else
        let mask := mask ||| (if isSign sign then 0x11 else 1)
        undoX86 address fuel (i + 1) { mask, place := here } bytes

/-! ## Filters -/

/-- Undoes a filter. -/
def Filter.undo (filter : Filter) (bytes : Array UInt8) : Array UInt8 :=
  match filter with
  | .delta distance => undoDelta distance bytes
  | .branches .x86 address =>
    undoX86 address bytes.size 0 { mask := 0, place := address - 5 } bytes
  | .branches .powerPc address => undoAll 4 undoPowerPc address bytes.size 0 bytes
  | .branches .ia64 address => undoAll 16 undoIa64 address bytes.size 0 bytes
  | .branches .arm address => undoAll 4 undoArm address bytes.size 0 bytes
  | .branches .armThumb address => undoAll 4 undoArmThumb address bytes.size 0 bytes
  | .branches .sparc address => undoAll 4 undoSparc address bytes.size 0 bytes

end SourceJar.Archive.Xz
