/-!
What a class file declares.

A `ClassFile` is the part of a compiled class that its declaration is written from: versions, access
flags, the names of the class and its ancestors, its fields and methods, and the name of the source
file. Names are internal names, with `/` between packages and `$` before nested classes.
-/

namespace SourceJar

/-- The access flags of a class, field or method. -/
structure AccessFlags where
  bits : UInt16
  deriving DecidableEq, Repr

namespace AccessFlags

/-- Whether any flag of `mask` is set. -/
def has (flags : AccessFlags) (mask : UInt16) : Bool := flags.bits &&& mask != 0

def isPublic (flags : AccessFlags) : Bool := flags.has 0x0001
def isPrivate (flags : AccessFlags) : Bool := flags.has 0x0002
def isProtected (flags : AccessFlags) : Bool := flags.has 0x0004
def isStatic (flags : AccessFlags) : Bool := flags.has 0x0008
def isFinal (flags : AccessFlags) : Bool := flags.has 0x0010
def isSynchronized (flags : AccessFlags) : Bool := flags.has 0x0020
def isVolatile (flags : AccessFlags) : Bool := flags.has 0x0040
def isBridge (flags : AccessFlags) : Bool := flags.has 0x0040
def isTransient (flags : AccessFlags) : Bool := flags.has 0x0080
def isNative (flags : AccessFlags) : Bool := flags.has 0x0100
def isInterface (flags : AccessFlags) : Bool := flags.has 0x0200
def isAbstract (flags : AccessFlags) : Bool := flags.has 0x0400
def isSynthetic (flags : AccessFlags) : Bool := flags.has 0x1000
def isAnnotation (flags : AccessFlags) : Bool := flags.has 0x2000
def isEnum (flags : AccessFlags) : Bool := flags.has 0x4000
def isModule (flags : AccessFlags) : Bool := flags.has 0x8000

end AccessFlags

/-- The value of a constant field. Floating-point values are kept as their bit patterns. -/
inductive ConstantValue where
  | int (value : Int32)
  | float (bits : UInt32)
  | long (value : Int64)
  | double (bits : UInt64)
  | string (text : String)
  deriving DecidableEq

/-- A field or a method. -/
structure Member where
  flags : AccessFlags
  name : String
  descriptor : String
  constant : Option ConstantValue := none
  exceptions : List String := []
  deriving DecidableEq

/-- The declaration of a class. -/
structure ClassFile where
  minorVersion : UInt16
  majorVersion : UInt16
  flags : AccessFlags
  thisClass : String
  superClass : Option String
  interfaces : List String
  fields : List Member
  methods : List Member
  sourceFile : Option String
  deriving DecidableEq

end SourceJar
