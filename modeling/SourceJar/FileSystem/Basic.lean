import SourceJar.Fault
import SourceJar.Path

/-!
A file system as a value.

A place in the file system is the row of names from the root down to it; a file system says what
stands at each place: a regular file with its content, a directory, a symbolic link or a device.
Relative paths start at the working directory, and temporary files go to the temporary directory.
Regular files all have the permissions `fileMode`.
-/

namespace SourceJar

/-- The names from the root down to a place. -/
abbrev Place := List Bytes

/-- What can stand at a place. -/
inductive Inode where
  | file (content : Bytes)
  | directory
  | link (target : Path)
  | device
  deriving DecidableEq, Repr

/-- What stands where, and where relative paths start. -/
structure FileSystem where
  nodes : List (Place × Inode)
  workingDirectory : Place
  temporaryDirectory : Place
  deriving DecidableEq, Repr

namespace FileSystem

/-- The permission bits of every regular file: its owner writes, all read. -/
def fileMode : Nat := 0o644

/-- What stands at a place; the root is always a directory. -/
def get? (fs : FileSystem) (place : Place) : Option Inode :=
  if place = [] then some .directory else fs.nodes.lookup place

/-- Sets a pair in an association list, in its old position if the key was there. -/
def setPair (place : Place) (node : Inode) : List (Place × Inode) → List (Place × Inode)
  | [] => [(place, node)]
  | (other, old) :: rest =>
    if other = place then (place, node) :: rest else (other, old) :: setPair place node rest

theorem lookup_setPair (place other : Place) (node : Inode) (nodes : List (Place × Inode)) :
    (setPair place node nodes).lookup other =
      if other = place then some node else nodes.lookup other := by
  induction nodes with
  | nil => by_cases h : other = place <;> grind [setPair]
  | cons head rest ih =>
    obtain ⟨first, old⟩ := head
    unfold setPair
    by_cases hf : first = place <;> by_cases ho : other = first <;> grind

/-- Puts something at a place. -/
def put (fs : FileSystem) (place : Place) (node : Inode) : FileSystem :=
  { fs with nodes := setPair place node fs.nodes }

/-- What was put at a place stands there, and nothing else has changed. -/
theorem get?_put (fs : FileSystem) (place other : Place) (node : Inode) (h : place ≠ []) :
    (fs.put place node).get? other = if other = place then some node else fs.get? other := by
  unfold get? put
  split
  · rename_i ho
    simp [ho, Ne.symm h]
  · exact lookup_setPair place other node fs.nodes

/-- Takes away what stands at a place. -/
def erase (fs : FileSystem) (place : Place) : FileSystem :=
  { fs with nodes := fs.nodes.filter fun (other, _) => other != place }

theorem lookup_filter_ne (place other : Place) (nodes : List (Place × Inode)) :
    (nodes.filter fun (key, _) => key != place).lookup other =
      if other = place then none else nodes.lookup other := by
  induction nodes with
  | nil => simp
  | cons head rest ih =>
    obtain ⟨first, node⟩ := head
    by_cases hf : first = place <;> by_cases ho : other = first <;> grind

/-- Nothing stands at a place that was erased, and nothing else has changed. -/
theorem get?_erase (fs : FileSystem) (place other : Place) (h : place ≠ []) :
    (fs.erase place).get? other = if other = place then none else fs.get? other := by
  unfold get? erase
  split
  · rename_i ho
    simp [ho, Ne.symm h]
  · exact lookup_filter_ne place other fs.nodes

/-- Takes away what stands at a place and below it. -/
def eraseTree (fs : FileSystem) (place : Place) : FileSystem :=
  { fs with nodes := fs.nodes.filter fun (other, _) => !place.isPrefixOf other }

/-- Whether one row of bytes comes before another in byte order. -/
def bytesBefore : Bytes → Bytes → Bool
  | [], [] => false
  | [], _ :: _ => true
  | _ :: _, [] => false
  | a :: as, b :: bs => a < b || (a == b && bytesBefore as bs)

/-- Whether one place comes before another, name by name. -/
def placeBefore : Place → Place → Bool
  | [], [] => false
  | [], _ :: _ => true
  | _ :: _, [] => false
  | a :: as, b :: bs => bytesBefore a b || (a == b && placeBefore as bs)

/-- The names in a directory, in byte order. -/
def namesIn (fs : FileSystem) (directory : Place) : List Bytes :=
  let names := fs.nodes.filterMap fun (place, _) =>
    match place.reverse with
    | name :: above => if above.reverse = directory then some name else none
    | [] => none
  names.mergeSort fun a b => !bytesBefore b a

/-- Everything below a place, with the names from there down, in order. -/
def below (fs : FileSystem) (top : Place) : List (Place × Inode) :=
  let found := fs.nodes.filterMap fun (place, node) =>
    match Split.dropStart? top place with
    | some (name :: rest) => some (name :: rest, node)
    | _ => none
  found.mergeSort fun a b => !placeBefore b.1 a.1

/-- The absolute path of a place. -/
def pathOf (place : Place) : Path :=
  match place with
  | [] => ⟨[Path.slash]⟩
  | names => ⟨names.flatMap fun name => Path.slash :: name⟩

end FileSystem

end SourceJar
