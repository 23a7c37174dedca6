/-!
Decimal text of binary floating-point numbers: the fewest digits that read back.

A finite positive number is `mantissa · 2 ^ exponent`. The reals that round to it form an interval
around it, its ends included when the mantissa is even. `Decimal.shortest` looks at the number's two
neighbours on the decimal grids with one digit, two digits and so on, in exact arithmetic on natural
numbers; the first grid that has a neighbour inside the interval gives the digits, and of two such
neighbours the nearer one wins, the upper one on a tie.

`BinaryFormat` describes the width of the mantissa and the exponent, so one definition serves both
precisions.
-/

namespace SourceJar

/-- A binary interchange format: bits of the stored fraction and bits of the exponent. -/
structure BinaryFormat where
  fractionBits : Nat
  exponentBits : Nat
  deriving DecidableEq, Repr

namespace BinaryFormat

def single : BinaryFormat := ⟨23, 8⟩

def double : BinaryFormat := ⟨52, 11⟩

/-- The exponent of the unit in the last place of the smallest numbers. -/
def leastExponent (f : BinaryFormat) : Int :=
  2 - (Nat.pow 2 (f.exponentBits - 1) : Int) - (f.fractionBits : Int)

end BinaryFormat

/-- What a bit pattern stands for. -/
inductive BinaryValue where
  | nan
  | infinite (negative : Bool)
  | zero (negative : Bool)
  /-- The number `mantissa · 2 ^ exponent`, with a sign. -/
  | finite (negative : Bool) (mantissa : Nat) (exponent : Int)
  deriving DecidableEq, Repr

/-- Reads a bit pattern of the given format. -/
def BinaryValue.ofBits (f : BinaryFormat) (bits : Nat) : BinaryValue :=
  let fraction := bits % Nat.pow 2 f.fractionBits
  let biased := bits / Nat.pow 2 f.fractionBits % Nat.pow 2 f.exponentBits
  let negative := bits / Nat.pow 2 (f.fractionBits + f.exponentBits) % 2 = 1
  if biased = Nat.pow 2 f.exponentBits - 1 then
    if fraction = 0 then .infinite negative else .nan
  else if biased = 0 then
    if fraction = 0 then .zero negative else .finite negative fraction f.leastExponent
  else
    .finite negative (Nat.pow 2 f.fractionBits + fraction) (f.leastExponent + biased - 1)

/-- Decimal digits without leading zeros and the position of the point: `digits` read as an integer
times `10 ^ (point - number of digits)`. -/
structure Decimal where
  digits : List Char
  point : Int
  deriving DecidableEq, Repr

namespace Decimal

/-- The number and the ends of its rounding interval as multiples of one fourth of its last place,
over a common denominator: `value / unit` with `low ≤ value ≤ high`. -/
structure Interval where
  low : Nat
  value : Nat
  high : Nat
  unit : Nat
  closed : Bool
  deriving DecidableEq, Repr

/-- The interval of the reals that round to `mantissa · 2 ^ exponent`. Below a power of two the
neighbours are half as far apart. -/
def interval (f : BinaryFormat) (mantissa : Nat) (exponent : Int) : Interval :=
  let below := if mantissa = Nat.pow 2 f.fractionBits then 1 else 2
  let up := Nat.pow 2 exponent.toNat
  { low := (4 * mantissa - below) * up
    value := 4 * mantissa * up
    high := (4 * mantissa + 2) * up
    unit := 4 * Nat.pow 2 (-exponent).toNat
    closed := mantissa % 2 = 0 }

/-- Whether `n / d` lies in the interval. -/
def Interval.contains (i : Interval) (n d : Nat) : Bool :=
  if i.closed then i.low * d ≤ n * i.unit && n * i.unit ≤ i.high * d
  else i.low * d < n * i.unit && n * i.unit < i.high * d

/-- The least `p` with `value < 10 ^ p · unit`, counted up from `p - fuel`. -/
def pointFrom (i : Interval) : Nat → Int → Int
  | 0, p => p
  | fuel + 1, p =>
    if i.value * Nat.pow 10 (-p).toNat < i.unit * Nat.pow 10 p.toNat then p else pointFrom i fuel (p + 1)

/-- The position of the point of the number: `10 ^ (point - 1) ≤ number < 10 ^ point`. -/
def pointOf (i : Interval) : Int := pointFrom i 640 (-330)

/-- The neighbour on the grid with `count` digits that lies in the interval, as a multiple of the
grid's step. -/
def onGrid (i : Interval) (point : Int) (count : Nat) : Option Nat :=
  let scale := (count : Int) - point
  let up := Nat.pow 10 scale.toNat
  let down := Nat.pow 10 (-scale).toNat
  let lower := i.value * up / (i.unit * down)
  let upper := lower + 1
  let lowerIn := i.contains (lower * down) up
  let upperIn := i.contains (upper * down) up
  if lowerIn && upperIn then
    if 2 * (i.value * up) < (lower + upper) * (i.unit * down) then some lower else some upper
  else if lowerIn then some lower
  else if upperIn then some upper
  else none

/-- The first grid, from `count` digits on, with a neighbour in the interval. -/
def search (i : Interval) (point : Int) : Nat → Nat → Option (Nat × Nat)
  | 0, _ => none
  | fuel + 1, count =>
    match onGrid i point count with
    | some n => some (n, count)
    | none => search i point fuel (count + 1)

/-- The digits without the zeros at their end. -/
def dropTrailingZeros (digits : List Char) : List Char :=
  (digits.reverse.dropWhile (· == '0')).reverse

/-- The shortest decimal that reads back as `mantissa · 2 ^ exponent`. -/
def shortest (f : BinaryFormat) (mantissa : Nat) (exponent : Int) : Decimal :=
  let i := interval f mantissa exponent
  let point := pointOf i
  match search i point 20 1 with
  | some (n, count) =>
    let digits := Nat.toDigits 10 n
    { digits := dropTrailingZeros digits
      point := point + (digits.length : Int) - count }
  | none => { digits := ['0'], point := 1 }

/-- Positional text, with at least one digit on each side of the point. -/
def positional (d : Decimal) : List Char :=
  let n := d.digits.length
  if d.point ≤ 0 then
    ['0', '.'] ++ List.replicate (-d.point).toNat '0' ++ d.digits
  else if (n : Int) ≤ d.point then
    d.digits ++ List.replicate (d.point.toNat - n) '0' ++ ['.', '0']
  else
    d.digits.take d.point.toNat ++ ['.'] ++ d.digits.drop d.point.toNat

/-- The text of an integer. -/
def integerText (n : Int) : List Char :=
  match n with
  | .ofNat n => Nat.toDigits 10 n
  | .negSucc n => '-' :: Nat.toDigits 10 (n + 1)

/-- Text with an exponent: one digit before the point and no point without further digits. -/
def scientific (d : Decimal) : List Char :=
  let rest := d.digits.drop 1
  d.digits.take 1 ++ (if rest.isEmpty then [] else '.' :: rest) ++ ['e'] ++
    integerText (d.point - 1)

/-- Numbers from `10⁻⁴` up to below `10¹⁶` are written positionally, all others with an exponent. -/
def text (d : Decimal) : List Char :=
  if -3 ≤ d.point && d.point ≤ 16 then d.positional else d.scientific

end Decimal

/-- The text of a finite number, `none` for the values that have no digits. -/
def BinaryValue.text? (f : BinaryFormat) : BinaryValue → Option String
  | .nan => none
  | .infinite _ => none
  | .zero negative => some (if negative then "-0.0" else "0.0")
  | .finite negative mantissa exponent =>
    let digits := (Decimal.shortest f mantissa exponent).text
    some (String.ofList (if negative then '-' :: digits else digits))

end SourceJar
