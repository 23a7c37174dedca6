import SourceJar.ClassFile.Descriptor
import SourceJar.ClassFile.Reader
import SourceJar.Java.Literal

/-!
The source skeleton of a class: its declaration, with every body replaced by a stub.

A class is written as a header comment, its package, its modifiers, name and ancestors, the constants
of an enum, then the fields and methods that are to be shown, each after a blank line. What the
compiler adds by itself is left out: synthetic members and bridges, the static initialiser, the two
methods of every enum, and the first two parameters of its constructors. Modules and synthetic classes
have no source form.
-/

namespace SourceJar.Java

/-- What a skeleton shows. -/
structure Options where
  includePrivate : Bool := true
  headerComment : Bool := true
  deriving DecidableEq, Repr

/-- The four kinds of declaration. -/
inductive Kind where
  | plain
  | interface
  | annotationType
  | enum
  deriving DecidableEq, Repr

/-- The kind of declaration that a class's flags call for. -/
def Kind.ofFlags (flags : AccessFlags) : Kind :=
  if flags.isAnnotation then .annotationType
  else if flags.isInterface then .interface
  else if flags.isEnum then .enum
  else .plain

/-- Whether members are those of an interface. -/
def Kind.isInterfaceLike : Kind → Bool
  | .interface => true
  | .annotationType => true
  | _ => false

/-- The statement in place of every body. -/
def stubBody : String := "throw new UnsupportedOperationException(\"decompiled stub\");"

/-- A word and a blank, if it applies. -/
def modifier (applies : Bool) (word : String) : String := if applies then word ++ " " else ""

/-- The visibility modifier; the widest of several flags counts. -/
def visibility (flags : AccessFlags) : String :=
  if flags.isPublic then "public "
  else if flags.isProtected then "protected "
  else if flags.isPrivate then "private "
  else ""

/-- Whether a field is shown among the fields. -/
def showsField (o : Options) (kind : Kind) (field : Member) : Bool :=
  !field.flags.isSynthetic && !(kind == .enum && field.flags.isEnum) &&
    (o.includePrivate || !field.flags.isPrivate)

/-- Whether a method is one that every enum has. -/
def isEnumMethod (method : Member) : Bool :=
  (method.name == "values" &&
      (Split.dropStart? "()".toList method.descriptor.toList).isSome) ||
    (method.name == "valueOf" &&
      (Split.dropStart? "(Ljava/lang/String;)".toList method.descriptor.toList).isSome)

/-- Whether a method is shown. -/
def showsMethod (o : Options) (kind : Kind) (method : Member) : Bool :=
  !(method.flags.isSynthetic || method.flags.isBridge) && method.name != "<clinit>" &&
    !(kind == .enum && isEnumMethod method) && (o.includePrivate || !method.flags.isPrivate)

/-- The type of a field, given its whole descriptor. -/
def fieldType (descriptor : String) : Except FormatError FieldType := do
  let (type, rest) ← FieldType.read descriptor.toList
  if rest.isEmpty && !type.isSpelledVoid then .ok type
  else .error (.malformedDescriptor descriptor)

/-- The declaration of a field. -/
def field (member : Member) : Except FormatError String := do
  let type := (← fieldType member.descriptor).spelling
  let modifiers := visibility member.flags ++ modifier member.flags.isStatic "static" ++
    modifier member.flags.isFinal "final" ++ modifier member.flags.isVolatile "volatile" ++
    modifier member.flags.isTransient "transient"
  let value := match member.constant with
    | some value => " = " ++ constant value type
    | none => ""
  return "    " ++ modifiers ++ type ++ " " ++ member.name ++ value ++ ";\n"

/-- The modifiers of a method. In an interface a method with a body is `default` unless it is private
or static. -/
def methodModifiers (kind : Kind) (flags : AccessFlags) : String :=
  if kind.isInterfaceLike then
    modifier flags.isPrivate "private" ++
      (if flags.isStatic then "static "
       else modifier (!flags.isAbstract && !flags.isPrivate) "default")
  else
    visibility flags ++ modifier flags.isAbstract "abstract" ++ modifier flags.isStatic "static" ++
      modifier flags.isFinal "final" ++ modifier flags.isSynchronized "synchronized" ++
      modifier flags.isNative "native"

/-- Parameters with made-up names. -/
def parameterList (types : List FieldType) : String :=
  ", ".intercalate (types.zipIdx.map fun (type, i) => type.spelling ++ " arg" ++ toString i)

/-- The declaration of a method, with a stub for its body if it has one. -/
def method (c : ClassFile) (kind : Kind) (member : Member) : Except FormatError String := do
  let type ← MethodType.read member.descriptor.toList
  let isConstructor := member.name == "<init>"
  let parameters :=
    if isConstructor && kind == .enum && 2 ≤ type.parameters.length then type.parameters.drop 2
    else type.parameters
  let modifiers := methodModifiers kind member.flags
  let name := if isConstructor then c.simpleName else type.result.spelling ++ " " ++ member.name
  let throws :=
    if member.exceptions.isEmpty then ""
    else " throws " ++ ", ".intercalate (member.exceptions.map typeName)
  let body :=
    if member.flags.isAbstract || member.flags.isNative then ";\n"
    else " \x7b\n        " ++ stubBody ++ "\n    \x7d\n"
  return "    " ++ modifiers ++ name ++ "(" ++ parameterList parameters ++ ")" ++ throws ++ body

/-- The comment above a skeleton. -/
def headerComment (c : ClassFile) : String :=
  s!"// Decompiled skeleton of {c.thisClass} (class file version {c.majorVersion.toNat}." ++
    s!"{c.minorVersion.toNat})\n" ++
    (match c.sourceFile with
      | some name => "// Source file: " ++ name ++ "\n"
      | none => "") ++ "\n"

/-- The package declaration. -/
def packageLine (c : ClassFile) : String :=
  match c.packageName? with
  | some package => "package " ++ package ++ ";\n\n"
  | none => ""

/-- The modifiers and the keyword of a class. -/
def classKeyword (kind : Kind) (flags : AccessFlags) : String :=
  modifier flags.isPublic "public" ++
    match kind with
    | .plain => modifier flags.isAbstract "abstract" ++ modifier flags.isFinal "final" ++ "class "
    | .interface => "interface "
    | .annotationType => "@interface "
    | .enum => "enum "

/-- The super class of a plain class, unless it goes without saying. -/
def extendsClause (kind : Kind) (c : ClassFile) : String :=
  match kind, c.superClass with
  | .plain, some name =>
    if name = "java/lang/Object" ∨ name = "java/lang/Record" then ""
    else " extends " ++ typeName name
  | _, _ => ""

/-- The interfaces of a class; for an annotation the one it always has goes without saying. -/
def interfacesClause (kind : Kind) (c : ClassFile) : String :=
  let shown := c.interfaces.filter fun name =>
    !(kind == .annotationType && name == "java/lang/annotation/Annotation")
  if shown.isEmpty then ""
  else
    (if kind.isInterfaceLike then " extends " else " implements ") ++
      ", ".intercalate (shown.map typeName)

/-- The line that opens the class. -/
def classHeader (kind : Kind) (c : ClassFile) : String :=
  classKeyword kind c.flags ++ c.simpleName ++ extendsClause kind c ++ interfacesClause kind c ++
    " \x7b\n"

/-- The constants of an enum. -/
def enumConstants (kind : Kind) (c : ClassFile) : String :=
  match kind with
  | .enum =>
    "\n    " ++ ",\n    ".intercalate ((c.fields.filter (·.flags.isEnum)).map (·.name)) ++ ";\n"
  | _ => ""

/-- Members, each after a blank line. -/
def members (declare : Member → Except FormatError String) :
    List Member → Except FormatError String
  | [] => .ok ""
  | member :: rest => do
    let first ← declare member
    let others ← members declare rest
    return "\n" ++ first ++ others

/-- The body of a class up to its closing brace. -/
def classBody (o : Options) (kind : Kind) (c : ClassFile) : Except FormatError String := do
  let fields ← members field (c.fields.filter (showsField o kind))
  let methods ← members (method c kind) (c.methods.filter (showsMethod o kind))
  return fields ++ methods

/-- The skeleton of a class. -/
def skeletonOf (o : Options) (c : ClassFile) : Except FormatError String := do
  if c.flags.isModule then throw .moduleDescriptor
  if c.flags.isSynthetic then throw (.syntheticClass c.thisClass)
  let kind := Kind.ofFlags c.flags
  let body ← classBody o kind c
  return (if o.headerComment then headerComment c else "") ++ packageLine c ++
    classHeader kind c ++ enumConstants kind c ++ body ++ "\x7d\n"

/-- The skeleton of the class in a class file, given its bytes. -/
def skeleton (o : Options) (bytes : Bytes) : Except FormatError String := do
  skeletonOf o (← ClassFile.parse bytes)

end SourceJar.Java
