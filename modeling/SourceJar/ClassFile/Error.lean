import SourceJar.Text.Quoted

/-!
Why a class file cannot be read or rendered, and how that is said.
-/

namespace SourceJar

/-- The kinds of constant pool entry that a reference can ask for. -/
inductive ConstantKind where
  | utf8
  | classRef
  | value
  deriving DecidableEq, Repr

/-- The kind's name in messages. -/
def ConstantKind.label : ConstantKind → String
  | .utf8 => "Utf8"
  | .classRef => "Class"
  | .value => "constant value"

/-- The causes for which a class file is turned down. -/
inductive FormatError where
  | badMagic (magic : UInt32)
  | truncated
  | indexOutOfRange (index : UInt16)
  | unexpectedConstant (index : UInt16) (expected : ConstantKind)
  | unknownTag (tag : UInt8)
  | malformedDescriptor (descriptor : String)
  | moduleDescriptor
  | syntheticClass (name : String)
  deriving DecidableEq, Repr

/-- A 32-bit word as eight upper-case hexadecimal digits. -/
def hexWord (word : UInt32) : String :=
  let digits := (Nat.toDigits 16 word.toNat).map Char.toUpper
  String.ofList (List.replicate (8 - digits.length) '0' ++ digits)

/-- What is said of each cause. -/
def FormatError.message : FormatError → String
  | .badMagic magic => "bad magic number 0x" ++ hexWord magic
  | .truncated => "class file is truncated"
  | .indexOutOfRange index => s!"constant pool index {index.toNat} is out of range"
  | .unexpectedConstant index expected =>
    s!"constant pool entry {index.toNat} is not a {expected.label}"
  | .unknownTag tag => s!"unknown constant pool tag {tag.toNat}"
  | .malformedDescriptor descriptor => "malformed descriptor " ++ Text.quoted descriptor
  | .moduleDescriptor => "unsupported class: module descriptor"
  | .syntheticClass name => "unsupported class: synthetic class " ++ name

end SourceJar
