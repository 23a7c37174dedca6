import SourceJar.Text.Split
import SourceJar.Text.Utf8

/-!
File paths.

A path is a sequence of bytes; what it means is the sequence of its components. Repeated and trailing
separators do not count, nor does a `.` other than at the start of a relative path, so `a//b/.` and
`a/b` have the same components, and `./a` and `a` do not. The last component, if it is a name, is the
file name, and its last dot, unless it comes first, parts it into stem and extension.
-/

namespace SourceJar

/-- A path as it is written. -/
structure Path where
  bytes : Bytes
  deriving DecidableEq, Repr

namespace Path

/-- The separator between components. -/
def slash : UInt8 := 0x2F

/-- The mark before an extension. -/
def dot : UInt8 := 0x2E

/-- What a path is made of. -/
inductive Component where
  | root
  | here
  | parent
  | name (bytes : Bytes)
  deriving DecidableEq, Repr

/-- The path that a text spells. -/
def ofText (text : String) : Path := ⟨Utf8.encode text⟩

/-- The path as text, with replacement characters where it is none. -/
def display (p : Path) : String := Utf8.decodeLossy p.bytes

def isAbsolute (p : Path) : Bool := p.bytes.head? == some slash

/-- The component that a piece between separators stands for, if it counts. -/
def component? (piece : Bytes) : Option Component :=
  if piece = [] ∨ piece = [dot] then none
  else if piece = [dot, dot] then some .parent
  else some (.name piece)

/-- The components of a path. -/
def components (p : Path) : List Component :=
  match Split.splitOn slash p.bytes with
  | [] => []
  | first :: rest =>
    (if first = [] then if rest = [] then [] else [.root]
     else if first = [dot] then [.here]
     else (component? first).toList) ++ rest.filterMap component?

/-- Whether two paths have the same components. -/
def equivalent (p q : Path) : Bool := p.components == q.components

/-- The last component, if it is a name. -/
def fileName? (p : Path) : Option Bytes :=
  match p.components.getLast? with
  | some (.name bytes) => some bytes
  | _ => none

/-- A file name's stem and extension. -/
def stemAndExtension (name : Bytes) : Bytes × Option Bytes :=
  match Split.cutLast? dot name with
  | some ([], _) => (name, none)
  | some (stem, extension) => (stem, some extension)
  | none => (name, none)

/-- The file name without its extension. -/
def stem? (p : Path) : Option Bytes := p.fileName?.map fun name => (stemAndExtension name).1

/-- What follows the last dot of the file name. -/
def extension? (p : Path) : Option Bytes := p.fileName?.bind fun name => (stemAndExtension name).2

/-- The file name as text. -/
def fileNameText? (p : Path) : Option String := p.fileName?.bind Utf8.decode?

/-- The stem as text. -/
def stemText? (p : Path) : Option String := p.stem?.bind Utf8.decode?

/-- The extension as text. -/
def extensionText? (p : Path) : Option String := p.extension?.bind Utf8.decode?

/-- The path `p` seen from `base`. -/
def join (base p : Path) : Path :=
  if p.isAbsolute then p
  else if base.bytes = [] ∨ base.bytes.getLast? = some slash then ⟨base.bytes ++ p.bytes⟩
  else ⟨base.bytes ++ slash :: p.bytes⟩

def Component.bytes : Component → Bytes
  | .root => []
  | .here => [dot]
  | .parent => [dot, dot]
  | .name bytes => bytes

/-- The path that a row of components spells. -/
def ofComponents : List Component → Path
  | [] => ⟨[]⟩
  | [.root] => ⟨[slash]⟩
  | c :: rest => ⟨c.bytes ++ rest.flatMap fun d => slash :: d.bytes⟩

/-- The path without its last component. -/
def parent? (p : Path) : Option Path :=
  match p.components.reverse with
  | [] => none
  | .root :: _ => none
  | _ :: before => some (ofComponents before.reverse)

end Path

end SourceJar
