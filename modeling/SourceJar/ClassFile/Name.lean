import SourceJar.ClassFile.Basic
import SourceJar.Text.Split
import SourceJar.Text.Blank

/-!
Internal class names and the names that source text uses.

An internal name such as `com/acme/Outer$Inner` has a package, the part before its last `/`, and a
simple name, the part after the last `/` and after the last `$` of that. In source text both marks
are dots, and classes directly in `java.lang` need no package.
-/

namespace SourceJar

/-- The name of a class as source text refers to it. -/
def typeName (internal : String) : String :=
  let dotted := internal.toList.map fun c => if c = '/' ∨ c = '$' then '.' else c
  match Split.dropStart? "java.lang.".toList dotted with
  | some simple => if '.' ∈ simple then String.ofList dotted else String.ofList simple
  | none => String.ofList dotted

namespace ClassFile

/-- The package in source form, if the class is in one. -/
def packageName? (c : ClassFile) : Option String :=
  (Split.cutLast? '/' c.thisClass.toList).map fun (package, _) =>
    String.ofList (package.map fun c => if c = '/' then '.' else c)

/-- The unqualified name of the class. -/
def simpleName (c : ClassFile) : String :=
  let name := match Split.cutLast? '/' c.thisClass.toList with
    | some (_, name) => name
    | none => c.thisClass.toList
  match Split.cutLast? '$' name with
  | some (_, inner) => String.ofList inner
  | none => String.ofList name

end ClassFile

end SourceJar
