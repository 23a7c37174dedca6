import SourceJar.Tool.Basic

/-!
Binary fractions and their decimal texts, in exact arithmetic.

A `Precision` says which fractions `m · 2^e` a kind of number can hold. Rounding to it, and to decimal
digits, goes to the nearest, and to the even one of two. The texts are those with a number of places,
with an exponent, and the shorter of the two for a number of digits.
-/

namespace SourceJar.Tool.Floating

/-- Which fractions a kind of number holds: those with so many bits, in units of `2^least` or more,
below `2^limit`. -/
structure Precision where
  bits : Nat
  least : Int
  limit : Nat

def single : Precision := ⟨24, -149, 128⟩

def double : Precision := ⟨53, -1074, 1024⟩

def extended : Precision := ⟨64, -16445, 16384⟩

/-- A number without its sign. -/
inductive Magnitude where
  /-- The fraction of two numbers, the second not zero. -/
  | finite (numerator denominator : Nat)
  | infinite
  | notANumber
  deriving DecidableEq, Repr

/-- A number with its sign. -/
structure Number where
  negative : Bool := false
  magnitude : Magnitude
  deriving DecidableEq, Repr

/-- The number `m · 2^e`. -/
def scaled (m : Nat) (e : Int) : Magnitude :=
  if 0 ≤ e then .finite (m * Nat.pow 2 e.toNat) 1 else .finite m (Nat.pow 2 (-e).toNat)

/-- A quotient rounded to the nearest, and to the even one of two. -/
def divRound (a b : Nat) : Nat :=
  let q := a / b
  let r := 2 * (a % b)
  if r < b || (r = b && q % 2 = 0) then q else q + 1

/-- The greatest `k` with `base^k` at most the fraction; `guess` is near it. -/
def floorLog (base numerator denominator : Nat) (guess : Int) : Int :=
  let atMost (k : Int) : Bool :=
    if 0 ≤ k then denominator * Nat.pow base k.toNat ≤ numerator
    else denominator ≤ numerator * Nat.pow base (-k).toNat
  let candidates := [guess + 2, guess + 1, guess, guess - 1]
  (candidates.find? atMost).getD (guess - 2)

/-- The power of two below a fraction. -/
def floorLog2 (numerator denominator : Nat) : Int :=
  floorLog 2 numerator denominator ((numerator.log2 : Int) - denominator.log2)

/-- The power of ten below a fraction. -/
def floorLog10 (numerator denominator : Nat) : Int :=
  floorLog 10 numerator denominator
    (((Nat.toDigits 10 numerator).length : Int) - (Nat.toDigits 10 denominator).length)

/-- Rounds a fraction to what a kind of number holds. -/
def Precision.round (p : Precision) (numerator denominator : Nat) : Magnitude :=
  if numerator = 0 then .finite 0 1
  else
    let e := max (floorLog2 numerator denominator - (p.bits - 1)) p.least
    let m := if 0 ≤ e then divRound numerator (denominator * Nat.pow 2 e.toNat)
      else divRound (numerator * Nat.pow 2 (-e).toNat) denominator
    if p.limit < (m.log2 : Int) + e + 1 then .infinite else scaled m e

/-! ## Decimal texts -/

/-- A fraction with so many significant digits: the digits as a number, and the power of ten of the
first one. -/
def significant (digits numerator denominator : Nat) : Nat × Int :=
  if numerator = 0 then (0, 0)
  else
    let log := floorLog10 numerator denominator
    let shift := (digits : Int) - 1 - log
    let n := if 0 ≤ shift then divRound (numerator * Nat.pow 10 shift.toNat) denominator
      else divRound numerator (denominator * Nat.pow 10 (-shift).toNat)
    if n < Nat.pow 10 digits then (n, log) else (n / 10, log + 1)

/-- Digits with a point before the last so many; `keepPoint`: also with none after it. -/
def withPoint (places : Nat) (keepPoint : Bool) (digits : List Char) : List Char :=
  let all := List.replicate (places + 1 - digits.length) '0' ++ digits
  let whole := all.take (all.length - places)
  let fraction := all.drop (all.length - places)
  whole ++ (if places = 0 && !keepPoint then [] else '.' :: fraction)

/-- A fraction with so many places. -/
def fixedText (places : Nat) (keepPoint : Bool) (numerator denominator : Nat) : List Char :=
  withPoint places keepPoint
    (Nat.toDigits 10 (divRound (numerator * Nat.pow 10 places) denominator))

/-- An exponent with its sign and at least two digits. -/
def exponentText (mark : Char) (e : Int) : List Char :=
  mark :: (if e < 0 then '-' else '+') :: digitsIn 10 2 e.natAbs

/-- A fraction with one digit before the point and so many after it, and an exponent. -/
def scientificText (places : Nat) (keepPoint : Bool) (numerator denominator : Nat) : List Char :=
  let (n, e) := significant (places + 1) numerator denominator
  withPoint places keepPoint (digitsIn 10 (places + 1) n) ++ exponentText 'e' e

/-- Digits without zeros at the end of their fraction, nor a point at their end. -/
def trimZeros (text : List Char) : List Char :=
  if text.contains '.' then
    let kept := (text.reverse.dropWhile (· == '0')).reverse
    if kept.getLast? = some '.' then kept.dropLast else kept
  else text

/-- A fraction with so many significant digits, without zeros at the end unless they are kept; with
an exponent if it is far from one. -/
def generalText (digits : Nat) (keepZeros : Bool) (numerator denominator : Nat) : List Char :=
  let digits := max digits 1
  let (n, e) := significant digits numerator denominator
  let trim (text : List Char) : List Char := if keepZeros then text else trimZeros text
  if -4 ≤ e && e < digits then
    trim (fixedText ((digits : Int) - 1 - e).toNat keepZeros numerator denominator)
  else trim (withPoint (digits - 1) keepZeros (digitsIn 10 digits n)) ++ exponentText 'e' e

/-- How many digits of a hexadecimal text stand after the point. -/
def Precision.hexPlaces (p : Precision) : Nat := (p.bits - 1) / 4

/-- A hexadecimal text. The digit before the point has the bits that fill no digit after it, and a
fraction too small for that has none. Rounding to fewer places can carry into a digit more, which then
stands alone. -/
def hexText (p : Precision) (places : Option Nat) (keepPoint : Bool) (numerator denominator : Nat) :
    List Char :=
  let least := p.least + 4 * p.hexPlaces
  let e := if numerator = 0 then 0
    else max (floorLog2 numerator denominator - ((p.bits : Int) - 4 * p.hexPlaces - 1)) least
  let count := places.getD p.hexPlaces
  let shift := 4 * (count : Int) - e
  let m := if 0 ≤ shift then divRound (numerator * Nat.pow 2 shift.toNat) denominator
    else divRound numerator (denominator * Nat.pow 2 (-shift).toNat)
  let (m, e) := if m < Nat.pow 2 (4 * count + 4) then (m, e) else (m / 16, e + 4)
  let digits := digitsIn 16 (count + 1) m
  let fraction := digits.drop 1
  let fraction := if places.isNone then (fraction.reverse.dropWhile (· == '0')).reverse else fraction
  "0x".toList ++ digits.take 1 ++
    (if fraction.isEmpty && !keepPoint then [] else '.' :: fraction) ++
    'p' :: (if e < 0 then '-' else '+') :: Nat.toDigits 10 e.natAbs

/-! ## Reading -/

/-- A sign at the start. -/
def signOf : List Char → Bool × List Char
  | '-' :: rest => (true, rest)
  | '+' :: rest => (false, rest)
  | rest => (false, rest)

/-- An exponent after its mark, and what follows it. -/
def exponentOf (marks rest : List Char) : Int × List Char :=
  match rest with
  | mark :: more =>
    if marks.contains mark then
      let (negative, after) := signOf more
      let digits := after.takeWhile Char.isDigit
      if digits.isEmpty then (0, rest)
      else
        let n : Int := digitsValue 10 digits
        (if negative then -n else n, after.drop digits.length)
    else (0, rest)
  | [] => (0, [])

/-- The digits before and after a point in a base, and what follows them. -/
def digitsAndPoint (base : Nat) (text : List Char) : List Char × List Char × List Char :=
  let isDigit (c : Char) : Bool := (digitIn? base c).isSome
  let whole := text.takeWhile isDigit
  match text.drop whole.length with
  | '.' :: rest =>
    let fraction := rest.takeWhile isDigit
    if whole.isEmpty && fraction.isEmpty then ([], [], text)
    else (whole, fraction, rest.drop fraction.length)
  | rest => (whole, [], rest)

/-- The greatest exponent that is worked out; beyond it numbers are infinite or nothing. -/
def maxExponent : Int := 20000

/-- A row of digits times a power, as a fraction. -/
def powered (digits base : Nat) (e : Int) : Nat × Nat :=
  let e := max (-maxExponent) (min e maxExponent)
  if 0 ≤ e then (digits * Nat.pow base e.toNat, 1) else (digits, Nat.pow base (-e).toNat)

/-- Whether a text starts with a word, in capitals or not. -/
def startsWithWord (word : String) (text : List Char) : Bool :=
  word.toList.isPrefixOf ((text.take word.length).map Char.toLower)

/-- What was read at the start of a text. -/
structure Reading where
  number : Number
  rest : List Char
  /-- Whether the number is too great to be held, or too small to be held as exactly as others. -/
  outOfRange : Bool := false

/-- Whether rounding a fraction goes out of the range of a kind of number. -/
def Precision.isOutOfRange (p : Precision) (numerator denominator : Nat) : Bool :=
  match p.round numerator denominator with
  | .finite a b =>
    numerator ≠ 0 && a * denominator ≠ numerator * b &&
      (a = 0 || floorLog2 a b < p.least + (p.bits - 1))
  | _ => true

/-- What follows the word for no number: a note in brackets belongs to it. -/
def afterNotANumber (rest : List Char) : List Char :=
  match rest with
  | '(' :: more =>
    match more.dropWhile fun c => c.isAlphanum || c == '_' with
    | ')' :: after => after
    | _ => rest
  | _ => rest

/-- Reads a number at the start of a text as exactly as a kind of number can hold it; also what
follows it. Without a number nothing is read. -/
def read (p : Precision) (text : List Char) : Reading :=
  let (negative, unsigned) := signOf (text.dropWhile isSpace)
  let number (digits : Nat) (base : Nat) (e : Int) (rest : List Char) : Reading :=
    let (numerator, denominator) := powered digits base e
    { number := ⟨negative, p.round numerator denominator⟩, rest,
      outOfRange := p.isOutOfRange numerator denominator }
  if startsWithWord "infinity" unsigned then ⟨⟨negative, .infinite⟩, unsigned.drop 8, false⟩
  else if startsWithWord "inf" unsigned then ⟨⟨negative, .infinite⟩, unsigned.drop 3, false⟩
  else if startsWithWord "nan" unsigned then
    ⟨⟨negative, .notANumber⟩, afterNotANumber (unsigned.drop 3), false⟩
  else
    let hex := if startsWithWord "0x" unsigned then digitsAndPoint 16 (unsigned.drop 2) else ([], [], [])
    match hex with
    | ([], [], _) =>
      match digitsAndPoint 10 unsigned with
      | ([], [], _) => ⟨⟨false, .finite 0 1⟩, text, false⟩
      | (whole, fraction, rest) =>
        let (e, rest) := exponentOf ['e', 'E'] rest
        number (digitsValue 10 (whole ++ fraction)) 10 (e - fraction.length) rest
    | (whole, fraction, rest) =>
      let (e, rest) := exponentOf ['p', 'P'] rest
      number (digitsValue 16 (whole ++ fraction)) 2 (e - 4 * fraction.length) rest

/-- The text of a magnitude that is no fraction. -/
def wordFor (m : Magnitude) : List Char := if m = .infinite then "inf".toList else "nan".toList

/-- The shortest general text of at least so many digits that reads back as the same number; at most
`fuel` digits more are tried. -/
def roundTripText (p : Precision) (numerator denominator : Nat) : (fuel digits : Nat) → List Char
  | 0, digits => generalText digits false numerator denominator
  | fuel + 1, digits =>
    let text := generalText digits false numerator denominator
    match (read p text).number.magnitude with
    | .finite a b =>
      if a * denominator = numerator * b then text
      else roundTripText p numerator denominator fuel (digits + 1)
    | _ => roundTripText p numerator denominator fuel (digits + 1)

end SourceJar.Tool.Floating
