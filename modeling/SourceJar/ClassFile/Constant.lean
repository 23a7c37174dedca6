import SourceJar.ClassFile.Basic
import SourceJar.ClassFile.Error
import SourceJar.Text.Utf8

/-!
The constant pool.

Entries are numbered from 1; slot 0 is never valid, and a long or double takes two slots, of which
the second is unusable. References name a slot, and looking one up asks for a kind of entry: a text,
a class (which names a text in turn), or the value of a constant field.
-/

namespace SourceJar

/-- An entry of the constant pool. Entries that no declaration needs keep their bytes only. -/
inductive Constant where
  | utf8 (bytes : Bytes)
  | integer (bits : UInt32)
  | float (bits : UInt32)
  | long (bits : UInt64)
  | double (bits : UInt64)
  | classRef (name : UInt16)
  | string (text : UInt16)
  | other (tag : UInt8) (payload : Bytes)
  /-- Slot 0, and the second slot of a long or double. -/
  | unusable
  deriving DecidableEq, Repr

/-- Whether the entry takes two slots. -/
def Constant.isWide : Constant → Bool
  | .long _ => true
  | .double _ => true
  | _ => false

/-- The slots of the pool, slot 0 included. -/
abbrev ConstantPool := Array Constant

namespace ConstantPool

/-- The entry in a slot; slot 0 counts as out of range. -/
def entry (pool : ConstantPool) (index : UInt16) : Except FormatError Constant :=
  if index = 0 then .error (.indexOutOfRange index)
  else
    match pool[index.toNat]? with
    | some constant => .ok constant
    | none => .error (.indexOutOfRange index)

/-- The text in a slot. -/
def utf8 (pool : ConstantPool) (index : UInt16) : Except FormatError String := do
  match ← pool.entry index with
  | .utf8 bytes => .ok (Utf8.decodeLossy bytes)
  | _ => .error (.unexpectedConstant index .utf8)

/-- The name of the class in a slot. -/
def className (pool : ConstantPool) (index : UInt16) : Except FormatError String := do
  match ← pool.entry index with
  | .classRef name => pool.utf8 name
  | _ => .error (.unexpectedConstant index .classRef)

/-- The value of a constant field in a slot. -/
def value (pool : ConstantPool) (index : UInt16) : Except FormatError ConstantValue := do
  match ← pool.entry index with
  | .integer bits => .ok (.int bits.toInt32)
  | .float bits => .ok (.float bits)
  | .long bits => .ok (.long bits.toInt64)
  | .double bits => .ok (.double bits)
  | .string text => return .string (← pool.utf8 text)
  | _ => .error (.unexpectedConstant index .value)

end ConstantPool

end SourceJar
