import SourceJar.FileSystem.Walk

/-!
Reading and changing a file system by path.

An operation that fails leaves the file system as it was, except that making a row of directories
keeps those it made before the fault.
-/

namespace SourceJar.FileSystem

/-! ## Asking -/

/-- What a path leads to, links followed. -/
def stat (fs : FileSystem) (p : Path) : Except IoFault Inode :=
  match fs.locate true p with
  | .ok (.taken _ node) => .ok node
  | .ok (.free ..) => .error (.os .noEntry)
  | .error e => .error e

/-- Whether a path leads to something. -/
def pathExists (fs : FileSystem) (p : Path) : Bool := (fs.stat p).isOk

/-- Whether a path leads to a directory. -/
def isDirectory (fs : FileSystem) (p : Path) : Bool :=
  match fs.stat p with
  | .ok .directory => true
  | _ => false

/-- Whether a path leads to a regular file. -/
def isFile (fs : FileSystem) (p : Path) : Bool :=
  match fs.stat p with
  | .ok (.file _) => true
  | _ => false

/-- The content of a file. -/
def readFile (fs : FileSystem) (p : Path) : Except IoFault Bytes := do
  match ← fs.stat p with
  | .file content => .ok content
  | .device => .ok []
  | _ => .error (.os .isDirectory)

/-- The content of a file as text. -/
def readText (fs : FileSystem) (p : Path) : Except IoFault String := do
  match Utf8.decode? (← fs.readFile p) with
  | some text => .ok text
  | none => .error .notText

/-! ## Changing -/

/-- Gives a file a content, making the file if it is not there. -/
def writeFile (fs : FileSystem) (p : Path) (content : Bytes) : Except IoFault FileSystem := do
  if endsInSlash p then
    match ← fs.locate true ⟨p.bytes.reverse.dropWhile (· == Path.slash) |>.reverse⟩ with
    | _ => .error (.os .isDirectory)
  else
    match ← fs.locate true p with
    | .taken place (.file _) => .ok (fs.put place (.file content))
    | .taken _ .device => .ok fs
    | .taken .. => .error (.os .isDirectory)
    | .free place _ => .ok (fs.put place (.file content))

/-- Makes a directory. -/
def makeDirectory (fs : FileSystem) (p : Path) : Except IoFault FileSystem := do
  match ← fs.locate false p with
  | .taken .. => .error (.os .alreadyExists)
  | .free place _ => .ok (fs.put place .directory)

/-- Makes a directory; if the directory for it is missing, `above` makes that first. A directory that
is there already will do. -/
def makeDirectoryAfter (above : FileSystem → FileSystem × Except IoFault Unit) (p : Path)
    (fs : FileSystem) : FileSystem × Except IoFault Unit :=
  let accept (fs : FileSystem) (e : IoFault) : FileSystem × Except IoFault Unit :=
    if fs.isDirectory p then (fs, .ok ()) else (fs, .error e)
  match fs.makeDirectory p with
  | .ok fs => (fs, .ok ())
  | .error (.os .noEntry) =>
    match above fs with
    | (fs, .error e) => (fs, .error e)
    | (fs, .ok ()) =>
      match fs.makeDirectory p with
      | .ok fs => (fs, .ok ())
      | .error e => accept fs e
  | .error e => accept fs e

/-- Makes the directory that reversed components spell, and those above it that are missing. -/
def makeComponents : List Path.Component → FileSystem → FileSystem × Except IoFault Unit
  | [], fs => (fs, .ok ())
  | last :: above, fs =>
    makeDirectoryAfter (makeComponents above) (Path.ofComponents (last :: above).reverse) fs

/-- Makes a directory and those above it that are missing. -/
def makeDirectories (fs : FileSystem) (p : Path) : FileSystem × Except IoFault Unit :=
  if p.bytes = [] then (fs, .ok ())
  else makeDirectoryAfter (makeComponents (p.components.reverse.drop 1)) p fs

/-- Makes a symbolic link. -/
def makeLink (fs : FileSystem) (target p : Path) : Except IoFault FileSystem := do
  match ← fs.locate false p with
  | .taken .. => .error (.os .alreadyExists)
  | .free place _ => .ok (fs.put place (.link target))

/-- Removes a file or a link. -/
def removeFile (fs : FileSystem) (p : Path) : Except IoFault FileSystem := do
  match ← fs.locate false p with
  | .taken _ .directory => .error (.os .isDirectory)
  | .taken place _ => .ok (fs.erase place)
  | .free .. => .error (.os .noEntry)

/-- Moves the file at a place to where a path leads, in place of a file or link that is there. -/
def moveFile (fs : FileSystem) (source : Place) (p : Path) : Except IoFault FileSystem := do
  match fs.get? source with
  | some node =>
    match ← fs.locate false p with
    | .taken _ .directory => .error (.os .isDirectory)
    | .taken place _ => .ok ((fs.erase source).put place node)
    | .free _ true => .error (.os .notDirectory)
    | .free place false => .ok ((fs.erase source).put place node)
  | none => .error (.os .noEntry)

/-! ## Temporary names -/

/-- A number with six digits or more. -/
def sixDigits (n : Nat) : Bytes :=
  let digits := (Nat.toDigits 10 n).map fun c => c.toUInt8
  List.replicate (6 - digits.length) 0x30 ++ digits

/-- The first name of the form `start`, number, `ending` that is free in a directory. -/
def freshName (fs : FileSystem) (directory : Place) (start ending : Bytes) : Nat → Nat → Bytes
  | 0, n => start ++ sixDigits n ++ ending
  | fuel + 1, n =>
    let name := start ++ sixDigits n ++ ending
    if (fs.get? (directory ++ [name])).isNone then name
    else freshName fs directory start ending fuel (n + 1)

/-- The directory that a path leads to. -/
def directoryPlace (fs : FileSystem) (p : Path) : Except IoFault Place := do
  match ← fs.locate true p with
  | .taken place .directory => .ok place
  | .taken .. => .error (.os .notDirectory)
  | .free .. => .error (.os .noEntry)

/-- Makes something with a new name in a directory. -/
def makeFresh (fs : FileSystem) (directory : Path) (start ending : String) (node : Inode) :
    Except IoFault (FileSystem × Place) := do
  let place ← fs.directoryPlace directory
  let name := fs.freshName place (Utf8.encode start) (Utf8.encode ending) fs.nodes.length 0
  return (fs.put (place ++ [name]) node, place ++ [name])

end SourceJar.FileSystem
