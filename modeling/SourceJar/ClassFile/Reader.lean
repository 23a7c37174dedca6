import SourceJar.ClassFile.Constant

/-!
Reading class files.

A `ByteReader` takes bytes off the front of the input and fails with `truncated` when there are not
enough. Numbers are big-endian. The reader resolves every reference as it meets it, so of two faults
the earlier one is reported; attributes that no declaration needs are passed over by their length,
and bytes after the last attribute are ignored.
-/

namespace SourceJar

/-- A step that takes bytes off the front of the input. -/
abbrev ByteReader := StateT Bytes (Except FormatError)

namespace ByteReader

def byte : ByteReader UInt8 := fun bytes =>
  match bytes with
  | b :: rest => .ok (b, rest)
  | [] => .error .truncated

def word16 : ByteReader UInt16 := fun bytes =>
  match bytes with
  | a :: b :: rest => .ok (a.toUInt16 <<< 8 ||| b.toUInt16, rest)
  | _ => .error .truncated

def word32 : ByteReader UInt32 := do
  let high ← word16
  let low ← word16
  return high.toUInt32 <<< 16 ||| low.toUInt32

def word64 : ByteReader UInt64 := do
  let high ← word32
  let low ← word32
  return high.toUInt64 <<< 32 ||| low.toUInt64

/-- The next `count` bytes. -/
def take (count : Nat) : ByteReader Bytes := fun bytes =>
  if count ≤ bytes.length then .ok (bytes.take count, bytes.drop count) else .error .truncated

/-- Passes over `count` bytes. -/
def skip (count : Nat) : ByteReader Unit := do
  let _ ← take count

/-- Runs a step a number of times and collects what it yields. -/
def times {α : Type} : Nat → ByteReader α → ByteReader (List α)
  | 0, _ => pure []
  | n + 1, step => do
    let first ← step
    let rest ← times n step
    return first :: rest

end ByteReader

namespace ClassFile

open ByteReader

/-- The first four bytes of every class file. -/
def magic : UInt32 := 0xCAFEBABE

/-- Reads one entry of the constant pool: a tag and what the tag calls for. -/
def readConstant : ByteReader Constant := do
  let tag ← byte
  match tag.toNat with
  | 1 => return .utf8 (← take (← word16).toNat)
  | 3 => return .integer (← word32)
  | 4 => return .float (← word32)
  | 5 => return .long (← word64)
  | 6 => return .double (← word64)
  | 7 => return .classRef (← word16)
  | 8 => return .string (← word16)
  | 9 | 10 | 11 | 12 | 17 | 18 => return .other tag (← take 4)
  | 15 => return .other tag (← take 3)
  | 16 | 19 | 20 => return .other tag (← take 2)
  | _ => throw (.unknownTag tag)

/-- Reads entries until `missing` slots are filled. A wide entry fills two slots, the second one
even past the last slot that was asked for. -/
def readSlots : Nat → ByteReader (List Constant)
  | 0 => pure []
  | missing + 1 => do
    let constant ← readConstant
    if constant.isWide then
      match missing with
      | 0 => return [constant, .unusable]
      | missing + 1 => return constant :: .unusable :: (← readSlots missing)
    else return constant :: (← readSlots missing)

/-- Reads the constant pool. The declared count includes slot 0. -/
def readPool : ByteReader ConstantPool := do
  let count ← word16
  let slots ← readSlots (count.toNat - 1)
  return (Constant.unusable :: slots).toArray

/-- The attributes of a member that its declaration shows. -/
structure Attributes where
  constant : Option ConstantValue := none
  exceptions : List String := []

/-- Reads the class names of an `Exceptions` attribute of the given length. -/
def readExceptions (pool : ConstantPool) (length : Nat) : ByteReader (List String) := do
  let number ← word16
  let names ← times number.toNat do pool.className (← word16)
  let used := 2 + 2 * number.toNat
  if length < used then throw .truncated
  skip (length - used)
  return names

/-- Reads one attribute of a member. The last constant value counts; exceptions add up. -/
def readAttribute (pool : ConstantPool) (found : Attributes) : ByteReader Attributes := do
  let name ← pool.utf8 (← word16)
  let length := (← word32).toNat
  if name = "ConstantValue" ∧ length = 2 then
    return { found with constant := some (← pool.value (← word16)) }
  else if name = "Exceptions" then
    return { found with exceptions := found.exceptions ++ (← readExceptions pool length) }
  else
    skip length
    return found

/-- Reads a number of attributes of a member. -/
def readAttributes (pool : ConstantPool) : Nat → Attributes → ByteReader Attributes
  | 0, found => pure found
  | n + 1, found => do readAttributes pool n (← readAttribute pool found)

/-- Reads a field or a method. -/
def readMember (pool : ConstantPool) : ByteReader Member := do
  let flags ← word16
  let name ← pool.utf8 (← word16)
  let descriptor ← pool.utf8 (← word16)
  let attributes ← readAttributes pool (← word16).toNat {}
  return {
    flags := ⟨flags⟩
    name
    descriptor
    constant := attributes.constant
    exceptions := attributes.exceptions }

/-- Reads one attribute of the class; the last source file name counts. -/
def readClassAttribute (pool : ConstantPool) (found : Option String) :
    ByteReader (Option String) := do
  let name ← pool.utf8 (← word16)
  let length := (← word32).toNat
  if name = "SourceFile" ∧ length = 2 then
    return some (← pool.utf8 (← word16))
  else
    skip length
    return found

/-- Reads a number of attributes of the class. -/
def readClassAttributes (pool : ConstantPool) : Nat → Option String → ByteReader (Option String)
  | 0, found => pure found
  | n + 1, found => do readClassAttributes pool n (← readClassAttribute pool found)

/-- Reads the name of the class that the super class reference gives; 0 stands for none. -/
def readSuperClass (pool : ConstantPool) : ByteReader (Option String) := do
  let index ← word16
  if index = 0 then return none else return some (← pool.className index)

/-- Reads a class file. -/
def read : ByteReader ClassFile := do
  let start ← word32
  if start ≠ magic then throw (.badMagic start)
  let minorVersion ← word16
  let majorVersion ← word16
  let pool ← readPool
  let flags ← word16
  let thisClass ← pool.className (← word16)
  let superClass ← readSuperClass pool
  let interfaces ← times (← word16).toNat do pool.className (← word16)
  let fields ← times (← word16).toNat (readMember pool)
  let methods ← times (← word16).toNat (readMember pool)
  let sourceFile ← readClassAttributes pool (← word16).toNat none
  return {
    minorVersion
    majorVersion
    flags := ⟨flags⟩
    thisClass
    superClass
    interfaces
    fields
    methods
    sourceFile }

/-- The declaration in a class file, given its bytes. -/
def parse (bytes : Bytes) : Except FormatError ClassFile :=
  (read.run bytes).map Prod.fst

end ClassFile

end SourceJar
