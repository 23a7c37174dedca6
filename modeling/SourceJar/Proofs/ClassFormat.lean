import Mathlib
import SourceJar.ClassFile.Reader

/-!
The class file format.

A raw class is what the bytes of a class file spell out before any reference is followed: numbers,
the entries of the constant pool, and attributes as a name and some bytes. Each raw structure carries the
proof that its counts and lengths fit the bytes they are written in, so every raw class has bytes
(`RawClass.bytes`). A raw class may still refer to slots that hold nothing or the wrong kind of entry;
`RawClass.Resolves` says which declaration it stands for, if any.
-/

namespace SourceJar

/-- A number in `width` bytes, the highest first. -/
def bigEndian : (width : Nat) → Nat → Bytes
  | 0, _ => []
  | width + 1, n => bigEndian width (n / 256) ++ [UInt8.ofNat n]

/-! ## Constants -/

namespace Constant

/-- How many slots an entry takes. -/
def width (c : Constant) : Nat := if c.isWide then 2 else 1

/-- The length of what follows the tag, for the tags of entries that no declaration needs. -/
def payloadLength? (tag : UInt8) : Option Nat :=
  if tag ∈ [9, 10, 11, 12, 17, 18] then some 4
  else if tag = 15 then some 3
  else if tag ∈ [16, 19, 20] then some 2
  else none

/-- Whether an entry can be written: a text must not be too long, and what is not a known constant must
have the length that its tag calls for. -/
def Writable : Constant → Prop
  | .utf8 text => text.length < 2 ^ 16
  | .other tag payload => payloadLength? tag = some payload.length
  | .unusable => False
  | _ => True

/-- The bytes of an entry: a tag and what the tag calls for. -/
def bytes : Constant → Bytes
  | .utf8 text => 1 :: bigEndian 2 text.length ++ text
  | .integer bits => 3 :: bigEndian 4 bits.toNat
  | .float bits => 4 :: bigEndian 4 bits.toNat
  | .long bits => 5 :: bigEndian 8 bits.toNat
  | .double bits => 6 :: bigEndian 8 bits.toNat
  | .classRef name => 7 :: bigEndian 2 name.toNat
  | .string text => 8 :: bigEndian 2 text.toNat
  | .other tag payload => tag :: payload
  | .unusable => []

end Constant

/-- How many slots entries take. -/
def slotCount (entries : List Constant) : Nat := (entries.map Constant.width).sum

/-- With slot 0, the entries come to at least `count` slots, and without the last of them they do not. -/
structure Fills (count : Nat) (entries : List Constant) : Prop where
  enough : count ≤ 1 + slotCount entries
  needed : ∀ front, front <+: entries → front ≠ entries → 1 + slotCount front < count

/-! ## Raw classes -/

namespace ClassFile

/-- An attribute: the slot of its name, and its bytes. -/
structure RawAttribute where
  name : UInt16
  info : Bytes
  fits : info.length < 2 ^ 32

/-- A field or a method: slots of its name and descriptor, and its attributes. -/
structure RawMember where
  flags : UInt16
  name : UInt16
  descriptor : UInt16
  attributes : List RawAttribute
  fits : attributes.length < 2 ^ 16

/-- The constant pool: the declared count of slots, and the entries needed to come to it. -/
structure RawPool where
  count : UInt16
  entries : List Constant
  writable : ∀ entry ∈ entries, entry.Writable
  fills : Fills count.toNat entries

/-- A class file before any reference is followed. -/
structure RawClass where
  minorVersion : UInt16
  majorVersion : UInt16
  pool : RawPool
  flags : UInt16
  thisClass : UInt16
  superClass : UInt16
  interfaces : List UInt16
  fields : List RawMember
  methods : List RawMember
  attributes : List RawAttribute
  interfacesFit : interfaces.length < 2 ^ 16
  fieldsFit : fields.length < 2 ^ 16
  methodsFit : methods.length < 2 ^ 16
  attributesFit : attributes.length < 2 ^ 16

/-- Items after their number, which takes two bytes. -/
def counted {ρ : Type} (write : ρ → Bytes) (items : List ρ) : Bytes :=
  bigEndian 2 items.length ++ items.flatMap write

def indexBytes (index : UInt16) : Bytes := bigEndian 2 index.toNat

def RawAttribute.bytes (a : RawAttribute) : Bytes :=
  indexBytes a.name ++ bigEndian 4 a.info.length ++ a.info

def RawMember.bytes (m : RawMember) : Bytes :=
  indexBytes m.flags ++ indexBytes m.name ++ indexBytes m.descriptor ++
    counted RawAttribute.bytes m.attributes

def RawPool.bytes (p : RawPool) : Bytes := indexBytes p.count ++ p.entries.flatMap Constant.bytes

/-- The bytes of a raw class. -/
def RawClass.bytes (raw : RawClass) : Bytes :=
  bigEndian 4 magic.toNat ++ indexBytes raw.minorVersion ++ indexBytes raw.majorVersion ++
    raw.pool.bytes ++ indexBytes raw.flags ++ indexBytes raw.thisClass ++ indexBytes raw.superClass ++
    counted indexBytes raw.interfaces ++ counted RawMember.bytes raw.fields ++
    counted RawMember.bytes raw.methods ++ counted RawAttribute.bytes raw.attributes

/-! ## References -/

/-- The entry stands in the slot: after slot 0 and the slots of the entries before it. -/
def InSlot (entries : List Constant) (slot : Nat) (entry : Constant) : Prop :=
  ∃ front back, entries = front ++ entry :: back ∧ slot = 1 + slotCount front

/-- The slot holds a text. -/
def HasText (entries : List Constant) (index : UInt16) (text : String) : Prop :=
  ∃ bytes, InSlot entries index.toNat (.utf8 bytes) ∧ text = Utf8.decodeLossy bytes

/-- The slot holds a class of the given name. -/
def HasClass (entries : List Constant) (index : UInt16) (name : String) : Prop :=
  ∃ text, InSlot entries index.toNat (.classRef text) ∧ HasText entries text name

/-- The slot holds the value of a constant field. -/
inductive HasValue (entries : List Constant) (index : UInt16) : ConstantValue → Prop
  | int {bits : UInt32} : InSlot entries index.toNat (.integer bits) → HasValue entries index (.int bits.toInt32)
  | float {bits : UInt32} : InSlot entries index.toNat (.float bits) → HasValue entries index (.float bits)
  | long {bits : UInt64} : InSlot entries index.toNat (.long bits) → HasValue entries index (.long bits.toInt64)
  | double {bits : UInt64} : InSlot entries index.toNat (.double bits) → HasValue entries index (.double bits)
  | string {text : UInt16} {value : String} : InSlot entries index.toNat (.string text) →
      HasText entries text value → HasValue entries index (.string value)

/-! ## Meanings -/

/-- What an attribute of a member adds to its declaration. -/
inductive RawAttribute.Means (entries : List Constant) (a : RawAttribute) : Attributes → Prop
  | constant {index : UInt16} {value : ConstantValue} : HasText entries a.name "ConstantValue" →
      a.info = indexBytes index → HasValue entries index value → Means entries a { constant := some value }
  /-- What stands after the class references is not looked at. -/
  | exceptions {indices : List UInt16} {names : List String} {padding : Bytes} :
      HasText entries a.name "Exceptions" → indices.length < 2 ^ 16 →
      a.info = counted indexBytes indices ++ padding → List.Forall₂ (HasClass entries) indices names →
      Means entries a { exceptions := names }
  | other {name : String} : HasText entries a.name name → name ≠ "Exceptions" →
      ¬(name = "ConstantValue" ∧ a.info.length = 2) → Means entries a {}

/-- The name of the source file that an attribute of the class gives, if it does. -/
inductive RawAttribute.NamesSource (entries : List Constant) (a : RawAttribute) : Option String → Prop
  | sourceFile {index : UInt16} {text : String} : HasText entries a.name "SourceFile" →
      a.info = indexBytes index → HasText entries index text → NamesSource entries a (some text)
  | other {name : String} : HasText entries a.name name → ¬(name = "SourceFile" ∧ a.info.length = 2) →
      NamesSource entries a none

/-- The member that a raw member stands for: the last constant value counts, exceptions add up. -/
structure RawMember.Resolves (entries : List Constant) (raw : RawMember) (m : Member) : Prop where
  flags : m.flags = ⟨raw.flags⟩
  name : HasText entries raw.name m.name
  descriptor : HasText entries raw.descriptor m.descriptor
  attributes : ∃ meanings, List.Forall₂ (RawAttribute.Means entries) raw.attributes meanings ∧
    m.constant = (meanings.filterMap Attributes.constant).getLast? ∧
    m.exceptions = meanings.flatMap Attributes.exceptions

/-- The declaration that a raw class stands for; the last source file name counts. -/
structure RawClass.Resolves (raw : RawClass) (c : ClassFile) : Prop where
  minorVersion : c.minorVersion = raw.minorVersion
  majorVersion : c.majorVersion = raw.majorVersion
  flags : c.flags = ⟨raw.flags⟩
  thisClass : HasClass raw.pool.entries raw.thisClass c.thisClass
  superClass : if raw.superClass = 0 then c.superClass = none
    else ∃ name, HasClass raw.pool.entries raw.superClass name ∧ c.superClass = some name
  interfaces : List.Forall₂ (HasClass raw.pool.entries) raw.interfaces c.interfaces
  fields : List.Forall₂ (RawMember.Resolves raw.pool.entries) raw.fields c.fields
  methods : List.Forall₂ (RawMember.Resolves raw.pool.entries) raw.methods c.methods
  sourceFile : ∃ sources, List.Forall₂ (RawAttribute.NamesSource raw.pool.entries) raw.attributes sources ∧
    c.sourceFile = (sources.filterMap id).getLast?

end ClassFile

end SourceJar
