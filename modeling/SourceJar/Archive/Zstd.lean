import SourceJar.Archive.Xxh64
import SourceJar.Archive.Zstd.Literals
import SourceJar.Archive.Zstd.Sequence

/-!
Restoring bytes from frames of blocks.

Data is a row of frames, some of which may hold nothing and are passed over. The header of a frame
gives how far copies reach, and may give its size. Blocks hold bytes as they are, one byte and how often
it comes, or literals and sequences. After the last block there may be a checksum.

Data that ends early is not restored, nor is data with anything else than frames in it.
-/

namespace SourceJar.Archive.Zstd

/-- What the header of a frame says. -/
structure FrameHeader where
  window : Nat
  size : Option Nat
  hasCheck : Bool
  deriving DecidableEq, Repr

/-- The longest that a block may be in any frame. -/
def maxBlock : Nat := 128 * 1024

/-- How far copies may reach unless the size of the frame is known. -/
def maxWindow : Nat := twoTo 27 + 1

/-- Reads the header of a frame. Frames that need a dictionary are refused. -/
def frameHeader : ByteReader FrameHeader := do
  let flags := (← ByteReader.byte).toNat
  guard (!flags.testBit 3)
  let whole := flags.testBit 5
  let window ← if whole then pure 0 else do
    let n := (← ByteReader.byte).toNat
    guard (n / 8 ≤ 21)
    pure (twoTo (n / 8 + 10) + twoTo (n / 8 + 7) * (n % 8))
  let dictionary ← ByteReader.number ([0, 1, 2, 4].getD (flags % 4) 0)
  guard (dictionary = 0)
  let size ←
    match flags / 64 with
    | 0 => if whole then some <$> ByteReader.number 1 else pure none
    | 1 => (fun n => some (n + 256)) <$> ByteReader.number 2
    | 2 => some <$> ByteReader.number 4
    | _ => some <$> ByteReader.number 8
  guard (size.isSome || window ≤ maxWindow)
  return { window := if whole then size.getD 0 else window, size, hasCheck := flags.testBit 2 }

/-- What is kept from block to block of a frame. -/
structure Frame where
  out : Array UInt8
  /-- Where the frame starts in the output. -/
  start : Nat
  recent : Recent
  code : Option ByteCode
  tables : Option Tables
  deriving Repr

/-- Reads literals and sequences, which restore to at most `limit` bytes. -/
def packedBlock (limit : Nat) (frame : Frame) : ByteReader Frame := do
  let (literals, code) ← literals limit frame.code
  let count ← sequenceCount
  if count = 0 then
    guard (← get).isEmpty
    return { frame with out := frame.out ++ literals, code }
  else
    let tables ← tables frame.tables
    let sequences ← sequences? tables count (← get)
    let stop := frame.out.size + limit
    let before : Progress := { out := frame.out, taken := 0, recent := frame.recent }
    let ran : Option Progress := sequences.foldlM (Progress.run? literals frame.start stop) before
    let progress ← ran
    let out := addLiterals literals progress.taken literals.size progress.out
    guard (out.size ≤ stop)
    return { frame with out, recent := progress.recent, code, tables := some tables }

/-- Reads a block; also whether it is the last one. Without the size of the frame, a block of no bytes is
empty whatever its kind. -/
def block (limit : Nat) (sized : Bool) (frame : Frame) : ByteReader (Frame × Bool) := do
  let header ← ByteReader.number 3
  let size := header / 8
  guard (size ≤ limit)
  let frame ←
    match header / 2 % 4 with
    | 0 => do pure { frame with out := frame.out ++ (← ByteReader.take size).toArray }
    | 1 => do
      let byte ← ByteReader.byte
      pure { frame with out := frame.out ++ Array.replicate size byte }
    | 2 => do
      let data ← ByteReader.take size
      if data.isEmpty && !sized then pure frame else (packedBlock limit frame).run' data
    | _ => failure
  return (frame, header % 2 = 1)

/-- Reads blocks up to the last one. Each takes at least a byte, so `fuel` is as many as there are
bytes. -/
def blocks (limit : Nat) (sized : Bool) : (fuel : Nat) → Frame → ByteReader Frame
  | 0, _ => failure
  | fuel + 1, frame => do
    let (frame, last) ← block limit sized frame
    if last then return frame else blocks limit sized fuel frame

/-- Reads a frame after its mark, and adds what it restores to. -/
def frame (out : Array UInt8) : ByteReader (Array UInt8) := do
  let header ← frameHeader
  let start := out.size
  let frame ← blocks (min header.window maxBlock) header.size.isSome (← get).length
    { out, start, recent := Recent.start, code := none, tables := none }
  guard (header.size.all (· = frame.out.size - start))
  if header.hasCheck then
    let check := Xxh64.xxh64 (frame.out.toList.drop start)
    guard ((← ByteReader.number 4) = check.toNat % twoTo 32)
  return frame.out

/-- Starts a frame. -/
def mark : Nat := 0xFD2FB528

/-- Starts a frame that holds nothing, but for its lowest four bits. -/
def emptyMark : Nat := 0x184D2A50

/-- Reads frames up to the end. Each takes at least four bytes, so `fuel` is as many as there are
bytes. -/
def frames : (fuel : Nat) → Array UInt8 → ByteReader (Array UInt8)
  | 0, _ => failure
  | fuel + 1, out => do
    let start ← ByteReader.number 4
    let out ←
      if start = mark then frame out
      else do
        guard (start / 16 = emptyMark / 16)
        let _ ← ByteReader.take (← ByteReader.number 4)
        pure out
    if (← get).isEmpty then return out else frames fuel out

/-- The bytes that packed data restores to. There must be a frame. -/
def restore? (data : Bytes) : Option Bytes :=
  ((frames data.length #[]).run' data).map Array.toList

end SourceJar.Archive.Zstd
