import SourceJar.Tool.Basic

/-!
Quantities on a command line: a number, and letters that scale it.

The letters of a scale are `b` for 512 and `k`, `M`, `G` and so on for powers of 1024, or of 1000 with
a `B` after them; letters alone scale one. Quantities are at most what a machine word holds.
-/

namespace SourceJar.Tool

/-- What a quantity comes to. -/
inductive Quantity where
  | value (n : Nat)
  | tooLarge
  | invalid
  deriving DecidableEq, Repr

namespace Quantity

/-- The greatest quantity. -/
def maximum : Nat := 0xFFFFFFFFFFFFFFFF

/-- The power of 1024 or 1000 that a letter stands for. -/
def power? (c : Char) : Option Nat :=
  [('k', 1), ('K', 1), ('m', 2), ('M', 2), ('g', 3), ('G', 3), ('t', 4), ('T', 4), ('P', 5), ('E', 6),
    ('Z', 7), ('Y', 8), ('R', 9), ('Q', 10)].lookup c

/-- The factor that letters stand for, if they are a scale. -/
def scale? (letters : List Char) : Option Nat :=
  match letters with
  | [] => some 1
  | ['b'] => some 512
  | c :: rest => do
    let p ← power? c
    match rest with
    | [] => some (Nat.pow 1024 p)
    | ['i', 'B'] => some (Nat.pow 1024 p)
    | ['B'] => some (Nat.pow 1000 p)
    | ['D'] => some (Nat.pow 1000 p)
    | _ => none

/-- Reads a quantity in a base; `allowed` are the letters that can start its scale. -/
def read (base : Nat) (allowed : List Char) (text : List Char) : Quantity :=
  let unsigned := match text with
    | '+' :: rest => rest
    | _ => text
  let digits := unsigned.takeWhile fun c => (digitIn? base c).isSome
  let letters := unsigned.drop digits.length
  let starts := match letters with
    | c :: _ => allowed.contains c
    | [] => true
  if !starts || (digits.isEmpty && (letters.isEmpty || unsigned.length < text.length)) then .invalid
  else
    match scale? letters with
    | none => .invalid
    | some factor =>
      let n := (if digits.isEmpty then 1 else digitsValue base digits) * factor
      if n ≤ maximum then .value n else .tooLarge

end Quantity

end SourceJar.Tool
