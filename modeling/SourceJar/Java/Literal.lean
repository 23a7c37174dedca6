import SourceJar.ClassFile.Basic
import SourceJar.Decimal.Shortest

/-!
Constants as Java source text.

A constant is written for the type of its field: an `int` constant may belong to a `boolean`, `char`,
`byte` or `short` field. Strings are quoted and escaped so that reading the source gives the value
back; floating-point numbers have the fewest digits that read back.
-/

namespace SourceJar.Java

/-- Whether a character is a control character: C0, delete or C1. -/
def isControl (c : Char) : Bool :=
  let n := c.toNat
  n < 0x20 || (0x7F ≤ n && n ≤ 0x9F)

/-- Four hexadecimal digits of a number below `16 ^ 4`. -/
def hex4 (n : Nat) : List Char :=
  [Nat.digitChar (n / 4096 % 16), Nat.digitChar (n / 256 % 16), Nat.digitChar (n / 16 % 16),
    Nat.digitChar (n % 16)]

/-- One character of a string literal. -/
def escapeChar (c : Char) : List Char :=
  if c = '"' then ['\\', '"']
  else if c = '\\' then ['\\', '\\']
  else if c = '\n' then ['\\', 'n']
  else if c = '\r' then ['\\', 'r']
  else if c = '\t' then ['\\', 't']
  else if isControl c then ['\\', 'u'] ++ hex4 c.toNat
  else [c]

/-- A string literal. -/
def stringLiteral (text : String) : String :=
  String.ofList ('"' :: text.toList.flatMap escapeChar ++ ['"'])

/-- The decimal text of an integer. -/
def decimal (n : Int) : String := String.ofList (Decimal.integerText n)

/-- The character with a 32-bit word as its code point, if there is one. -/
def charOfWord? (word : UInt32) : Option Char :=
  if word.toNat.isValidChar then some (Char.ofNat word.toNat) else none

/-- A `char` constant: a literal if the value is a character that can stand between quotes as it
is, else a cast. -/
def charConstant (value : Int32) : String :=
  match charOfWord? value.toUInt32 with
  | some c =>
    if isControl c || c == '\'' || c == '\\' then "(char) " ++ decimal value.toInt
    else String.ofList ['\'', c, '\'']
  | none => "(char) " ++ decimal value.toInt

/-- A constant of an integral field. -/
def intConstant (value : Int32) (type : String) : String :=
  if type = "boolean" then if value = 0 then "false" else "true"
  else if type = "char" then charConstant value
  else if type = "byte" then "(byte) " ++ decimal value.toInt
  else if type = "short" then "(short) " ++ decimal value.toInt
  else decimal value.toInt

/-- A floating-point constant: digits and a mark, or a constant of the wrapper class for the values
that have no digits. -/
def floatingConstant (f : BinaryFormat) (bits : Nat) (wrapper mark : String) : String :=
  match BinaryValue.ofBits f bits with
  | .nan => wrapper ++ ".NaN"
  | .infinite false => wrapper ++ ".POSITIVE_INFINITY"
  | .infinite true => wrapper ++ ".NEGATIVE_INFINITY"
  | value => (value.text? f).getD "" ++ mark

/-- The value of a constant field whose type is spelled `type`. -/
def constant (value : ConstantValue) (type : String) : String :=
  match value with
  | .int value => intConstant value type
  | .long value => decimal value.toInt ++ "L"
  | .float bits => floatingConstant .single bits.toNat "Float" "f"
  | .double bits => floatingConstant .double bits.toNat "Double" ""
  | .string text => stringLiteral text

end SourceJar.Java
