import SourceJar.Java.Skeleton
import SourceJar.Proofs.CheckedReading

/-!
No class file fails a check.

A skeleton is made of a class file from its bytes on with every check there is to fail: the cursor never leaves the
input, no difference is below zero, the names of classes and the parts of descriptors are cut between two characters,
and a constructor of an enum has the two parameters that are left out. Whatever the bytes are, the checked run comes to
what `Java.skeleton` says (`skeleton_fails_no_check`).
-/

namespace SourceJar.Checked

open Java (Kind Options)

/-! ## Members -/

/-- The type of a field, given its whole descriptor. -/
def wholeFieldType (descriptor : String) : Run FieldType := do
  let (type, rest) ← fieldType descriptor.toList
  if !rest.isEmpty || type.isSpelledVoid then throw (.malformedDescriptor descriptor) else return type

/-- The declaration of a field. -/
def field (member : Member) : Run String := do
  let type := (← wholeFieldType member.descriptor).spelling
  let modifiers := Java.visibility member.flags ++ Java.modifier member.flags.isStatic "static" ++
    Java.modifier member.flags.isFinal "final" ++ Java.modifier member.flags.isVolatile "volatile" ++
    Java.modifier member.flags.isTransient "transient"
  let value := match member.constant with
    | some value => " = " ++ Java.constant value type
    | none => ""
  return "    " ++ modifiers ++ type ++ " " ++ member.name ++ value ++ ";\n"

/-- The parameters that a declaration shows. A constructor of an enum has two that are left out. -/
def shownParameters (kind : Kind) (isConstructor : Bool) (types : List FieldType) : Except Check (List FieldType) :=
  if isConstructor && kind == .enum && 2 ≤ types.length then drain 2 types else return types

/-- The declaration of a method in the class of a name. -/
def method (className : String) (kind : Kind) (member : Member) : Run String := do
  let type ← methodType member.descriptor.toList
  let isConstructor := member.name == "<init>"
  let parameters ← shownParameters kind isConstructor type.parameters
  let name ← if isConstructor then simpleName className else pure (type.result.spelling ++ " " ++ member.name)
  let throws :=
    if member.exceptions.isEmpty then ""
    else " throws " ++ ", ".intercalate (member.exceptions.map typeName)
  let body :=
    if member.flags.isAbstract || member.flags.isNative then ";\n"
    else " \x7b\n        " ++ Java.stubBody ++ "\n    \x7d\n"
  return "    " ++ Java.methodModifiers kind member.flags ++ name ++ "(" ++ Java.parameterList parameters ++ ")" ++
    throws ++ body

/-- Members, each after a blank line. -/
def members (declare : Member → Run String) : List Member → Run String
  | [] => return ""
  | member :: rest => do
    let first ← declare member
    let others ← members declare rest
    return "\n" ++ first ++ others

theorem wholeFieldType_comesTo (descriptor : String) :
    ComesTo (wholeFieldType descriptor) (Java.fieldType descriptor) := by
  refine (fieldType_comesTo _).bind fun (type, rest) _ => ?_
  dsimp only
  cases rest.isEmpty with
  | true => cases type.isSpelledVoid <;> rfl
  | false => rfl

theorem field_comesTo (member : Member) : ComesTo (field member) (Java.field member) :=
  (wholeFieldType_comesTo _).bind fun _ _ => comesTo_pure _

theorem shownParameters_eq (kind : Kind) (isConstructor : Bool) (types : List FieldType) :
    shownParameters kind isConstructor types =
      .ok (if isConstructor && kind == .enum && 2 ≤ types.length then types.drop 2 else types) := by
  rw [shownParameters]
  split
  · rename_i h
    simp only [Bool.and_eq_true, decide_eq_true_eq] at h
    rw [drain_eq h.2]
  · rfl

theorem method_comesTo (c : ClassFile) (kind : Kind) (member : Member) :
    ComesTo (method c.thisClass kind member) (Java.method c kind member) := by
  rw [method, Java.method]
  refine (methodType_comesTo _).bind fun type _ => .check (shownParameters_eq _ _ _) ?_
  cases member.name == "<init>" with
  | true => exact .check (simpleName_eq c) (comesTo_pure _)
  | false => exact comesTo_pure _

theorem members_comesTo {declare : Member → Run String} {plain : Member → Except FormatError String}
    (h : ∀ member, ComesTo (declare member) (plain member)) (found : List Member) :
    ComesTo (members declare found) (Java.members plain found) := by
  induction found with
  | nil => exact comesTo_pure _
  | cons member found ih => exact (h member).bind fun _ _ => ih.bind fun _ _ => comesTo_pure _

/-! ## Classes -/

/-- The package declaration of the class of a name. -/
def packageLine (className : String) : Except Check String := do
  match ← packageName? className with
  | some package => return "package " ++ package ++ ";\n\n"
  | none => return ""

/-- The line that opens the class. -/
def classHeader (kind : Kind) (c : ClassFile) : Except Check String := do
  let name ← simpleName c.thisClass
  return Java.classKeyword kind c.flags ++ name ++ Java.extendsClause kind c ++ Java.interfacesClause kind c ++
    " \x7b\n"

/-- The body of a class up to its closing brace. -/
def classBody (o : Options) (kind : Kind) (c : ClassFile) : Run String := do
  let fields ← members field (c.fields.filter (Java.showsField o kind))
  let methods ← members (method c.thisClass kind) (c.methods.filter (Java.showsMethod o kind))
  return fields ++ methods

/-- The skeleton of a class. -/
def skeletonOf (o : Options) (c : ClassFile) : Run String := do
  if c.flags.isModule then throw .moduleDescriptor
  if c.flags.isSynthetic then throw (.syntheticClass c.thisClass)
  let package ← packageLine c.thisClass
  let kind := Kind.ofFlags c.flags
  let header ← classHeader kind c
  let body ← classBody o kind c
  return (if o.headerComment then Java.headerComment c else "") ++ package ++ header ++ Java.enumConstants kind c ++
    body ++ "\x7d\n"

/-- The skeleton of the class in a class file, given its bytes. -/
def skeleton (o : Options) (bytes : Bytes) : Run String := do
  skeletonOf o (← parse bytes)

theorem packageLine_eq (c : ClassFile) : packageLine c.thisClass = .ok (Java.packageLine c) := by
  rw [packageLine, packageName?_eq, Java.packageLine]
  cases c.packageName? <;> rfl

theorem classHeader_eq (kind : Kind) (c : ClassFile) : classHeader kind c = .ok (Java.classHeader kind c) := by
  rw [classHeader, simpleName_eq]
  rfl

theorem classBody_comesTo (o : Options) (kind : Kind) (c : ClassFile) :
    ComesTo (classBody o kind c) (Java.classBody o kind c) :=
  (members_comesTo field_comesTo _).bind fun _ _ =>
    (members_comesTo (method_comesTo c kind) _).bind fun _ _ => comesTo_pure _

theorem skeletonOf_comesTo (o : Options) (c : ClassFile) : ComesTo (skeletonOf o c) (Java.skeletonOf o c) := by
  rw [skeletonOf]
  refine .unless (fun h => ?_) fun hmodule => ?_
  · rw [Java.skeletonOf, if_pos h]
    rfl
  refine .unless (fun h => ?_) fun hsynthetic => ?_
  · rw [Java.skeletonOf, if_neg hmodule, if_pos h]
    rfl
  rw [Java.skeletonOf, if_neg hmodule, if_neg hsynthetic]
  exact .check (packageLine_eq c) (.check (classHeader_eq _ c) ((classBody_comesTo o _ c).bind fun _ _ => comesTo_pure _))

/-- No check fails in making the skeleton of a class file, whatever its bytes are and whatever is to be shown: the run
comes to the skeleton, or turns the class file down. -/
theorem skeleton_fails_no_check (o : Options) (bytes : Bytes) :
    (skeleton o bytes).run = .ok (Java.skeleton o bytes) :=
  (parse_comesTo bytes).bind fun c _ => skeletonOf_comesTo o c

end SourceJar.Checked
