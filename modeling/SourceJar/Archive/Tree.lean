import SourceJar.Archive.Builder
import SourceJar.Archive.Zip.Content
import SourceJar.Archive.Zip.Directory
import SourceJar.FileSystem.Operations

/-!
The directory tree of an archive.

Entries come in the order of the archive's directory; those with unsafe names are left out, and
directories that no entry stands for are made from the paths of the entries below them.
-/

namespace SourceJar.Archive

/-- A node whose content is what reading it gives. -/
abbrev Entry := Node (Except IoFault Bytes)

/-- The content of a node; a directory has none. -/
def readContent : Entry → Except IoFault Bytes
  | .directory _ path _ => .error (.directoryContent path)
  | .file _ _ content => content

/-- The tree of named entries; those with unsafe names are left out. -/
def buildTree {α : Type} (name path : String) (entries : List (String × α)) : Node α :=
  ((Builder.empty name path).insertAll (entries.filter fun (name, _) => EntryName.isSafe name)).build

/-- The named contents in the bytes of an archive. Every entry must have a header of its own. -/
def readEntries (data : Bytes) : Except Failure (List (String × Except IoFault Bytes)) := do
  let directory ← Zip.read data
  directory.mapM fun entry => do
    let _ ← Zip.dataOffset data entry
    return (entry.name, Zip.content data entry)

/-- The file name of a path as text. -/
def nameOf (p : Path) : Except Failure String :=
  match p.fileNameText? with
  | some name => .ok name
  | none => .error (.invalidPath p.display)

/-- Opens the archive that a path leads to. -/
def openArchive (fs : FileSystem) (p : Path) : Except Failure Entry := do
  let name ← nameOf p
  match fs.readFile p with
  | .error e => .error (.io e)
  | .ok data =>
    let entries ← readEntries data
    return buildTree name (p.display ++ String.singleton Node.rootMark ++ "/") entries

end SourceJar.Archive
