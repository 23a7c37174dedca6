/-!
Text as bytes: UTF-8.

Decoding runs a small automaton over the bytes. It is either between characters or inside a
sequence whose next byte must lie in a known range; the ranges after the lead bytes `E0`, `ED`,
`F0` and `F4` leave out overlong forms, surrogates and values past the last code point. A byte out
of range ends the sequence there: what was read of it is one ill-formed run, and the byte itself is
looked at afresh. `units` is the sequence of characters and ill-formed runs; strict and lossy
decoding are two readings of it.
-/

namespace SourceJar

/-- A sequence of octets. -/
abbrev Bytes := List UInt8

namespace Utf8

/-- Where the automaton stands: between characters, or with `missing` bytes of a character to come,
the next of them between `low` and `high`, and `value` read so far. -/
inductive State where
  | start
  | inside (missing : Nat) (low high : UInt8) (value : Nat)
  deriving DecidableEq, Repr

/-- Reads one byte between characters. An ill-formed run of one byte is reported as `none`. -/
def lead (b : UInt8) : List (Option Char) × State :=
  let n := b.toNat
  if n < 0x80 then ([some (Char.ofNat n)], .start)
  else if n < 0xC2 then ([none], .start)
  else if n < 0xE0 then ([], .inside 1 0x80 0xBF (n - 0xC0))
  else if n = 0xE0 then ([], .inside 2 0xA0 0xBF 0)
  else if n = 0xED then ([], .inside 2 0x80 0x9F 0xD)
  else if n < 0xF0 then ([], .inside 2 0x80 0xBF (n - 0xE0))
  else if n = 0xF0 then ([], .inside 3 0x90 0xBF 0)
  else if n < 0xF4 then ([], .inside 3 0x80 0xBF (n - 0xF0))
  else if n = 0xF4 then ([], .inside 3 0x80 0x8F 4)
  else ([none], .start)

/-- Reads one byte: what it completes, and where the automaton stands after it. -/
def step : State → UInt8 → List (Option Char) × State
  | .start, b => lead b
  | .inside missing low high value, b =>
    if low ≤ b ∧ b ≤ high then
      let value := value * 64 + (b.toNat - 0x80)
      if missing ≤ 1 then ([some (Char.ofNat value)], .start)
      else ([], .inside (missing - 1) 0x80 0xBF value)
    else
      let (completed, next) := lead b
      (none :: completed, next)

/-- What remains to be reported when the bytes end. -/
def finish : State → List (Option Char)
  | .start => []
  | .inside .. => [none]

def unitsFrom : State → Bytes → List (Option Char)
  | s, [] => finish s
  | s, b :: rest => (step s b).1 ++ unitsFrom (step s b).2 rest

/-- The characters of `bytes` in order, with `none` for each ill-formed run. -/
def units (bytes : Bytes) : List (Option Char) := unitsFrom .start bytes

/-- What stands for an ill-formed run in lossy text. -/
def replacement : Char := '\uFFFD'

/-- Reads any bytes as text; each ill-formed run becomes one replacement character. -/
def decodeLossy (bytes : Bytes) : String :=
  String.ofList ((units bytes).map fun u => u.getD replacement)

/-- Reads bytes as text if they are well-formed throughout. -/
def decode? (bytes : Bytes) : Option String :=
  ((units bytes).mapM id).map String.ofList

/-- The bytes of a text. -/
def encode (text : String) : Bytes :=
  text.toList.flatMap String.utf8EncodeChar

/-- How many bytes a text has. -/
def size (text : String) : Nat := (encode text).length

end Utf8

end SourceJar
