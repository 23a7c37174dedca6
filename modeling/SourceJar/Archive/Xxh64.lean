import SourceJar.Archive.LittleEndian

/-!
The checksum XXH64, with the seed zero.

Four lanes take in eight bytes each of every 32; what is left over is taken in after the lanes have
been merged, eight bytes, four bytes and one byte at a time.
-/

namespace SourceJar.Archive.Xxh64

def prime1 : UInt64 := 0x9E3779B185EBCA87

def prime2 : UInt64 := 0xC2B2AE3D27D4EB4F

def prime3 : UInt64 := 0x165667B19E3779F9

def prime4 : UInt64 := 0x85EBCA77C2B2AE63

def prime5 : UInt64 := 0x27D4EB2F165667C5

def rotated (x places : UInt64) : UInt64 := (x <<< places) ||| (x >>> (64 - places))

/-- The number at the front of some bytes. -/
def front (width : Nat) (bytes : Bytes) : UInt64 := UInt64.ofNat (littleEndian (bytes.take width))

/-- Takes a number into a lane. -/
def lane (old input : UInt64) : UInt64 := rotated (old + input * prime2) 31 * prime1

/-- Four lanes. -/
structure Lanes where
  first : UInt64
  second : UInt64
  third : UInt64
  fourth : UInt64
  deriving DecidableEq, Repr

def Lanes.start : Lanes where
  first := prime1 + prime2
  second := prime2
  third := 0
  fourth := 0 - prime1

/-- Takes 32 bytes into the lanes, as often as they are there. -/
def Lanes.takeAll : Lanes → (count : Nat) → Bytes → Lanes
  | lanes, 0, _ => lanes
  | lanes, count + 1, bytes =>
    let lanes : Lanes := {
      first := lane lanes.first (front 8 bytes)
      second := lane lanes.second (front 8 (bytes.drop 8))
      third := lane lanes.third (front 8 (bytes.drop 16))
      fourth := lane lanes.fourth (front 8 (bytes.drop 24)) }
    lanes.takeAll count (bytes.drop 32)

/-- The value that the lanes merge to. -/
def Lanes.merged (lanes : Lanes) : UInt64 :=
  let sum := rotated lanes.first 1 + rotated lanes.second 7 + rotated lanes.third 12 +
    rotated lanes.fourth 18
  [lanes.first, lanes.second, lanes.third, lanes.fourth].foldl
    (fun h old => (h ^^^ lane 0 old) * prime1 + prime4) sum

/-- Takes the bytes left over into a value; `fuel` is as many as there are. -/
def takeRest : (fuel : Nat) → Bytes → UInt64 → UInt64
  | 0, _, h => h
  | fuel + 1, bytes, h =>
    if bytes.length ≥ 8 then
      takeRest fuel (bytes.drop 8)
        (rotated (h ^^^ lane 0 (front 8 bytes)) 27 * prime1 + prime4)
    else if bytes.length ≥ 4 then
      takeRest fuel (bytes.drop 4)
        (rotated (h ^^^ (front 4 bytes * prime1)) 23 * prime2 + prime3)
    else if bytes.length ≥ 1 then
      takeRest fuel (bytes.drop 1) (rotated (h ^^^ (front 1 bytes * prime5)) 11 * prime1)
    else h

/-- Spreads what is in any bit over all of them. -/
def scattered (h : UInt64) : UInt64 :=
  let h := (h ^^^ (h >>> 33)) * prime2
  let h := (h ^^^ (h >>> 29)) * prime3
  h ^^^ (h >>> 32)

/-- The checksum of a sequence of bytes. -/
def xxh64 (bytes : Bytes) : UInt64 :=
  let stripes := bytes.length / 32
  let h := if stripes = 0 then prime5 else (Lanes.start.takeAll stripes bytes).merged
  let rest := bytes.drop (32 * stripes)
  scattered (takeRest rest.length rest (h + UInt64.ofNat bytes.length))

end SourceJar.Archive.Xxh64
