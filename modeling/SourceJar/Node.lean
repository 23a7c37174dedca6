import SourceJar.Text.Split

/-!
The directory tree inside an archive.

A node is a directory with children or a file with some content; what the content is, is left open.
Every node has a name and a path, which starts with the archive's own path and a mark, as in
`lib.jar!/com/acme/Foo.class`. The files that are turned into source text, the units, are those with
the extension `class` whose name has no `$`: nested classes come with the class around them.
-/

namespace SourceJar

/-- A node of the tree, with contents of type `α`. -/
inductive Node (α : Type) where
  | directory (name path : String) (children : List (Node α))
  | file (name path : String) (content : α)

instance {α : Type} : Inhabited (Node α) := ⟨.directory "" "" []⟩

namespace Node

variable {α : Type}

/-- What parts the archive's own path from the path inside it. -/
def rootMark : Char := '!'

/-- The extension of class files. -/
def classExtension : String := "class"

/-- What parts a nested class's name from that of the class around it. -/
def nestedMark : Char := '$'

def name : Node α → String
  | .directory name _ _ => name
  | .file name _ _ => name

def path : Node α → String
  | .directory _ path _ => path
  | .file _ path _ => path

def isDirectory : Node α → Bool
  | .directory .. => true
  | .file .. => false

def children : Node α → List (Node α)
  | .directory _ _ children => children
  | .file .. => []

/-- The path inside the archive: what follows the first mark. -/
def entryPath (node : Node α) : String :=
  match Split.cutFirst? rootMark node.path.toList with
  | some (_, inside) => String.ofList inside
  | none => node.path

/-- A file name cut at its last dot, unless that comes first. -/
def cutName (name : String) : String × String :=
  match Split.cutLast? '.' name.toList with
  | some ([], _) => (name, "")
  | some (_, []) => (name, "")
  | some (base, extension) => (String.ofList base, String.ofList extension)
  | none => (name, "")

/-- The extension of a file, empty if it has none; a directory has none. -/
def extension : Node α → String
  | .directory .. => ""
  | .file name _ _ => (cutName name).2

/-- The name without the extension and its dot. -/
def baseName : Node α → String
  | .directory name _ _ => name
  | .file name _ _ => (cutName name).1

/-- Whether a file of this name is a unit. -/
def isUnitName (name : String) : Bool :=
  (cutName name).2 == classExtension && !name.toList.contains nestedMark

/-- Whether the node is turned into source text. -/
def isUnit : Node α → Bool
  | .directory .. => false
  | .file name _ _ => isUnitName name

mutual

/-- The units in a directory and below it, in depth-first order. -/
def units : Node α → List (Node α)
  | .directory _ _ children => unitsOfAll children
  | .file .. => []

/-- The units among some nodes and below them, in depth-first order. -/
def unitsOfAll : List (Node α) → List (Node α)
  | [] => []
  | .directory name path children :: rest =>
    units (.directory name path children) ++ unitsOfAll rest
  | .file name path content :: rest =>
    (if isUnitName name then [.file name path content] else []) ++ unitsOfAll rest

end

/-- How many units there are below a node. -/
def unitCount (node : Node α) : Nat := node.units.length

end Node

end SourceJar
