import SourceJar.Archive.EntryName
import SourceJar.Node

/-!
Growing the tree of an archive, one entry after another.

Directories are shared by name, files never. So while entries are added every directory keeps a table of the
positions at which its directories stand among its children; the finished tree has no tables.
-/

namespace SourceJar.Archive

/-- A node of a tree that is still growing. -/
inductive Builder (α : Type) where
  | directory (name path : String) (children : List (Builder α)) (positions : List (String × Nat))
  | entry (name path : String) (content : α)

namespace Builder

variable {α : Type}

/-- A directory with nothing in it. -/
def empty (name path : String) : Builder α := .directory name path [] []

/-- The children, the table and the position in them of the directory of a name, which is made at the end and
put into the table if the table has none. -/
def reach (name path : String) (children : List (Builder α)) (positions : List (String × Nat)) :
    List (Builder α) × List (String × Nat) × Nat :=
  match positions.lookup name with
  | some position => (children, positions, position)
  | none => (children ++ [empty name path], (name, children.length) :: positions, children.length)

/-- Adds an entry to a directory: a file with the content at the end of the segments, or only the directories
along them. What is not a directory stays as it is. -/
def insert : (segments : List String) → (isDirectory : Bool) → α → Builder α → Builder α
  | [], _, _, builder => builder
  | _ :: _, _, _, .entry name path content => .entry name path content
  | first :: rest, isDirectory, content, .directory name path children positions =>
    if rest.isEmpty && !isDirectory then
      .directory name path (children ++ [.entry first (path ++ first) content]) positions
    else
      let (children, positions, position) := reach first (path ++ first ++ "/") children positions
      .directory name path (children.modify position (insert rest isDirectory content)) positions

/-- Adds named entries one after another. -/
def insertAll (entries : List (String × α)) (builder : Builder α) : Builder α :=
  entries.foldl (fun builder (name, content) =>
    insert (EntryName.segments name) (EntryName.isDirectory name) content builder) builder

mutual

/-- The finished tree. -/
def build : Builder α → Node α
  | .directory name path children _ => .directory name path (buildAll children)
  | .entry name path content => .file name path content

/-- The finished trees of some nodes. -/
def buildAll : List (Builder α) → List (Node α)
  | [] => []
  | child :: rest => build child :: buildAll rest

end

end Builder

end SourceJar.Archive
