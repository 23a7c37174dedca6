import SourceJar.Tool.Floating

/-!
Formats: how values are laid out by a directive such as `%-8.3f`, and how arguments are read as values.

A directive has flags, a width and a precision, which may be taken from the arguments, and a letter.
Numbers with a precision have at least so many digits; signs, marks of a base and zeros go before the
digits, and blanks fill the width.
-/

namespace SourceJar.Tool.Format

/-- How a value is laid out. -/
structure Layout where
  left : Bool := false
  plus : Bool := false
  blank : Bool := false
  alternate : Bool := false
  zeros : Bool := false
  width : Nat := 0
  precision : Option Nat := none

/-- The layout that flags ask for. -/
def Layout.ofFlags (flags : List Char) : Layout where
  left := flags.contains '-'
  plus := flags.contains '+'
  blank := flags.contains ' '
  alternate := flags.contains '#'
  zeros := flags.contains '0'

/-- Sets a width; a negative one also asks for the left. -/
def Layout.withWidth (l : Layout) (width : Int) : Layout :=
  { l with width := width.natAbs, left := l.left || width < 0 }

/-- Fills the width: with zeros after the start, or with blanks. -/
def Layout.fill (l : Layout) (zeros : Bool) (start body : List Char) : List Char :=
  let room := l.width - (start.length + body.length)
  if l.left then start ++ body ++ List.replicate room ' '
  else if zeros then start ++ List.replicate room '0' ++ body
  else List.replicate room ' ' ++ start ++ body

/-- The sign of a number. -/
def Layout.sign (l : Layout) (negative : Bool) : List Char :=
  if negative then ['-'] else if l.plus then ['+'] else if l.blank then [' '] else []

/-- The digits of a number, at least as many as the precision says; zero has none by itself. -/
def Layout.digits (l : Layout) (base n : Nat) : List Char :=
  let digits := if n = 0 then [] else Nat.toDigits base n
  List.replicate (l.precision.getD 1 - digits.length) '0' ++ digits

/-- A text, cut to the precision. -/
def Layout.text (l : Layout) (text : List Char) : List Char :=
  l.fill false [] (match l.precision with
    | some n => text.take n
    | none => text)

/-- A whole number with its sign. -/
def Layout.signed (l : Layout) (n : Int) : List Char :=
  l.fill (l.zeros && l.precision.isNone) (l.sign (n < 0)) (l.digits 10 n.natAbs)

/-- A whole number without a sign, in the base of a letter. -/
def Layout.unsigned (l : Layout) (letter : Char) (n : Nat) : List Char :=
  let zeros := l.zeros && l.precision.isNone
  if letter = 'o' then
    let digits := l.digits 8 n
    l.fill zeros [] (if l.alternate && digits.head? ≠ some '0' then '0' :: digits else digits)
  else if letter = 'u' then l.fill zeros [] (l.digits 10 n)
  else
    let mark := if l.alternate && n ≠ 0 then "0x".toList else []
    let text := l.fill zeros mark (l.digits 16 n)
    if letter = 'X' then text.map Char.toUpper else text

/-- A number that need not be whole, in the form of a letter. -/
def Layout.floating (l : Layout) (p : Floating.Precision) (letter : Char) (n : Floating.Number) :
    List Char :=
  let sign := l.sign n.negative
  let small := letter.toLower
  let text := match n.magnitude with
    | .finite a b =>
      if small = 'a' then
        l.fill l.zeros (sign ++ "0x".toList) ((Floating.hexText p l.precision l.alternate a b).drop 2)
      else
        let places := l.precision.getD 6
        l.fill l.zeros sign
          (if small = 'f' then Floating.fixedText places l.alternate a b
          else if small = 'e' then Floating.scientificText places l.alternate a b
          else Floating.generalText places l.alternate a b)
    | other => l.fill false sign (Floating.wordFor other)
  if letter.isUpper then text.map Char.toUpper else text

/-! ## Directives -/

/-- Where a width or a precision comes from. -/
inductive Measure where
  | absent
  | given (n : Nat)
  /-- The next argument. -/
  | argument
  deriving DecidableEq, Repr

/-- A directive: its text up to the letter, and what that says. -/
structure Directive where
  written : List Char
  flags : List Char
  width : Measure
  precision : Measure
  letter : Char

/-- Reads a width, or the precision after a point. -/
def measure (text : List Char) : Measure × List Char :=
  match text with
  | '*' :: rest => (.argument, rest)
  | _ =>
    let digits := text.takeWhile Char.isDigit
    (if digits.isEmpty then .absent else .given (digitsValue 10 digits), text.drop digits.length)

/-- Reads the directive after a percent sign, with the flags and the letters for lengths that are
allowed; also what follows it. Without a letter at the end there is none, but its text is known. -/
def directive (flags lengths text : List Char) : Option Char × Directive × List Char :=
  let given := text.takeWhile flags.contains
  let (width, rest) := measure (text.drop given.length)
  let (precision, rest) := match rest with
    | '.' :: rest =>
      let (precision, rest) := measure rest
      (if precision = Measure.absent then Measure.given 0 else precision, rest)
    | _ => (Measure.absent, rest)
  let rest := rest.dropWhile lengths.contains
  let written := '%' :: text.take (text.length - rest.length + 1)
  (rest.head?, ⟨written, given, width, precision, rest.head?.getD '\x00'⟩, rest.drop 1)

/-! ## Arguments as whole numbers -/

/-- What an argument comes to as a number: also what follows the number in it, and whether it had to be
brought into range. -/
structure Reading where
  value : Int
  rest : List Char
  outOfRange : Bool

/-- The base that the start of a number tells, and its digits with what follows them. -/
def baseOf (text : List Char) : Nat × List Char :=
  match text with
  | '0' :: mark :: d :: rest =>
    if (mark = 'x' || mark = 'X') && (digitIn? 16 d).isSome then (16, d :: rest)
    else if (mark = 'b' || mark = 'B') && (digitIn? 2 d).isSome then (2, d :: rest)
    else (8, text)
  | '0' :: _ => (8, text)
  | _ => (10, text)

/-- The least and the greatest number with a sign, and the greatest without. -/
def leastSigned : Int := -0x8000000000000000

def greatestSigned : Int := 0x7FFFFFFFFFFFFFFF

def greatestUnsigned : Int := 0xFFFFFFFFFFFFFFFF

/-- Reads a whole number at the start of an argument. One without a sign of its own is taken modulo
`2^64` if it is negative. Without a number nothing is read. -/
def readInteger (signed : Bool) (text : List Char) : Reading :=
  let (negative, unsigned) := Floating.signOf (text.dropWhile isSpace)
  let (base, start) := baseOf unsigned
  let digits := start.takeWhile fun c => (digitIn? base c).isSome
  if digits.isEmpty then ⟨0, text, false⟩
  else
    let n : Int := digitsValue base digits
    let value := if negative then -n else n
    let rest := start.drop digits.length
    if signed then
      if value < leastSigned then ⟨leastSigned, rest, true⟩
      else if greatestSigned < value then ⟨greatestSigned, rest, true⟩
      else ⟨value, rest, false⟩
    else if greatestUnsigned < n then ⟨greatestUnsigned, rest, true⟩
    else ⟨value % (greatestUnsigned + 1), rest, false⟩

end SourceJar.Tool.Format
