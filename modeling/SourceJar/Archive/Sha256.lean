import SourceJar.Archive.Unpacking

/-!
The checksum SHA-256.

The bytes are filled up to whole blocks of 64 with a bit, zeros and their length. Each block is spread
over 64 words, which change a state of eight words one after another; the state after the last block
is the checksum.
-/

namespace SourceJar.Archive.Sha256

/-- What the words of a block are mixed with. -/
def constants : Array UInt32 :=
  #[0x428A2F98, 0x71374491, 0xB5C0FBCF, 0xE9B5DBA5, 0x3956C25B, 0x59F111F1,
    0x923F82A4, 0xAB1C5ED5, 0xD807AA98, 0x12835B01, 0x243185BE, 0x550C7DC3,
    0x72BE5D74, 0x80DEB1FE, 0x9BDC06A7, 0xC19BF174, 0xE49B69C1, 0xEFBE4786,
    0x0FC19DC6, 0x240CA1CC, 0x2DE92C6F, 0x4A7484AA, 0x5CB0A9DC, 0x76F988DA,
    0x983E5152, 0xA831C66D, 0xB00327C8, 0xBF597FC7, 0xC6E00BF3, 0xD5A79147,
    0x06CA6351, 0x14292967, 0x27B70A85, 0x2E1B2138, 0x4D2C6DFC, 0x53380D13,
    0x650A7354, 0x766A0ABB, 0x81C2C92E, 0x92722C85, 0xA2BFE8A1, 0xA81A664B,
    0xC24B8B70, 0xC76C51A3, 0xD192E819, 0xD6990624, 0xF40E3585, 0x106AA070,
    0x19A4C116, 0x1E376C08, 0x2748774C, 0x34B0BCB5, 0x391C0CB3, 0x4ED8AA4A,
    0x5B9CCA4F, 0x682E6FF3, 0x748F82EE, 0x78A5636F, 0x84C87814, 0x8CC70208,
    0x90BEFFFA, 0xA4506CEB, 0xBEF9A3F7, 0xC67178F2]

/-- The state before the first block. -/
def start : Array UInt32 :=
  #[0x6A09E667, 0xBB67AE85, 0x3C6EF372, 0xA54FF53A, 0x510E527F, 0x9B05688C,
    0x1F83D9AB, 0x5BE0CD19]

def rotated (x : UInt32) (places : UInt32) : UInt32 := (x >>> places) ||| (x <<< (32 - places))

/-- The bytes of a number, the highest first. -/
def bigEndian (width n : Nat) : Bytes :=
  (List.range width).reverse.map fun i => UInt8.ofNat (n / twoTo (8 * i))

/-- The bytes filled up to whole blocks. -/
def filled (bytes : Bytes) : Bytes :=
  let zeros := (119 - bytes.length % 64) % 64
  bytes ++ 0x80 :: List.replicate zeros 0 ++ bigEndian 8 (8 * bytes.length)

/-- The first `count` words of some bytes. -/
def words : (count : Nat) → Bytes → List UInt32
  | 0, _ => []
  | count + 1, bytes =>
    (bytes.take 4).foldl (fun word b => (word <<< 8) ||| b.toUInt32) 0 :: words count (bytes.drop 4)

/-- Adds words to the sixteen of a block, each made of earlier ones. -/
def spread : (more : Nat) → Array UInt32 → Array UInt32
  | 0, w => w
  | more + 1, w =>
    let back (i : Nat) : UInt32 := w.getD (w.size - i) 0
    let early := rotated (back 15) 7 ^^^ rotated (back 15) 18 ^^^ (back 15 >>> 3)
    let late := rotated (back 2) 17 ^^^ rotated (back 2) 19 ^^^ (back 2 >>> 10)
    spread more (w.push (back 16 + early + back 7 + late))

/-- Changes the state by one word. -/
def mix (state : Array UInt32) (word constant : UInt32) : Array UInt32 :=
  let old (i : Nat) : UInt32 := state.getD i 0
  let a := old 0
  let e := old 4
  let choice := (e &&& old 5) ^^^ ((e ^^^ 0xFFFFFFFF) &&& old 6)
  let first := old 7 + (rotated e 6 ^^^ rotated e 11 ^^^ rotated e 25) + choice + constant + word
  let majority := (a &&& old 1) ^^^ (a &&& old 2) ^^^ (old 1 &&& old 2)
  let second := (rotated a 2 ^^^ rotated a 13 ^^^ rotated a 22) + majority
  #[first + second, a, old 1, old 2, old 3 + first, e, old 5, old 6]

/-- Takes one block into the state. -/
def takeBlock (state : Array UInt32) (block : Bytes) : Array UInt32 :=
  let spreadWords := spread 48 (words 16 block).toArray
  let mixed := (spreadWords.zip constants).foldl (fun s (word, constant) => mix s word constant) state
  (state.zip mixed).map fun (old, new) => old + new

/-- Takes a number of blocks into the state. -/
def takeBlocks : (count : Nat) → Array UInt32 → Bytes → Array UInt32
  | 0, state, _ => state
  | count + 1, state, bytes => takeBlocks count (takeBlock state (bytes.take 64)) (bytes.drop 64)

/-- The checksum of a sequence of bytes. -/
def sha256 (bytes : Bytes) : Bytes :=
  let all := filled bytes
  (takeBlocks (all.length / 64) start all).toList.flatMap fun word => bigEndian 4 word.toNat

end SourceJar.Archive.Sha256
