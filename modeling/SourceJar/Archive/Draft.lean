import SourceJar.Archive.Zip.Writer
import SourceJar.Failure
import SourceJar.FileSystem.Operations

/-!
An archive that is being written.

A draft holds the entries written so far and every path that was ever handed to it. A path that it
has seen is turned away without a fault, so no path is written twice. The archive format ends the
name of a directory in a slash, adding one if need be, and accepts each final name once: a second entry
with a final name that is taken is a fault, after which the path counts as seen and nothing else has
changed.
-/

namespace SourceJar.Archive

/-- How much was written. -/
structure WriteSummary where
  directories : Nat := 0
  files : Nat := 0
  bytesWritten : Nat := 0
  deriving DecidableEq, Repr

/-- One entry of a draft. -/
structure DraftEntry where
  name : String
  isDirectory : Bool
  text : String
  deriving DecidableEq, Repr

/-- An archive that is being written. -/
structure Draft where
  seen : List String := []
  entries : List DraftEntry := []
  summary : WriteSummary := {}
  deriving DecidableEq, Repr

namespace Draft

/-- Whether a path was handed to the draft before. -/
def contains (d : Draft) (path : String) : Bool := d.seen.contains path

/-- The final name of a directory entry. -/
def directoryName (path : String) : String :=
  match path.toList.getLast? with
  | some '/' => path
  | some '\\' => path
  | _ => path ++ "/"

/-- Appends an entry unless its name is taken. -/
def append (d : Draft) (entry : DraftEntry) (summary : WriteSummary) :
    Draft × Except Failure Bool :=
  if d.entries.any fun other => other.name == entry.name then
    (d, .error (.archive (.duplicateName entry.name)))
  else ({ d with entries := d.entries ++ [entry], summary }, .ok true)

/-- Adds a directory; `false` if the path was seen before. -/
def addDirectory (d : Draft) (path : String) : Draft × Except Failure Bool :=
  if d.contains path then (d, .ok false)
  else
    append { d with seen := path :: d.seen } ⟨directoryName path, true, ""⟩
      { d.summary with directories := d.summary.directories + 1 }

/-- Adds a file with a text; `false` if the path was seen before. -/
def addFile (d : Draft) (path text : String) : Draft × Except Failure Bool :=
  if d.contains path then (d, .ok false)
  else
    append { d with seen := path :: d.seen } ⟨path, false, text⟩
      { d.summary with
        files := d.summary.files + 1
        bytesWritten := d.summary.bytesWritten + Utf8.size text }

/-! ## What an addition does -/

theorem append_seen (d : Draft) (entry : DraftEntry) (summary : WriteSummary) :
    (d.append entry summary).1.seen = d.seen := by
  unfold append
  split <;> rfl

/-- After a directory was added, its path counts as seen and no other path has become so. -/
theorem mem_seen_addDirectory (d : Draft) (path other : String) :
    other ∈ (d.addDirectory path).1.seen ↔ other = path ∨ other ∈ d.seen := by
  unfold addDirectory contains
  split
  · simp_all
  · simp [append_seen]

/-- After a file was added, its path counts as seen and no other path has become so. -/
theorem mem_seen_addFile (d : Draft) (path text other : String) :
    other ∈ (d.addFile path text).1.seen ↔ other = path ∨ other ∈ d.seen := by
  unfold addFile contains
  split
  · simp_all
  · simp [append_seen]

/-- The bytes of the finished archive. -/
def encode (d : Draft) : Bytes :=
  Zip.encode (d.entries.map fun entry => ⟨entry.name, Utf8.encode entry.text⟩)

/-- Makes the file that a finished archive goes to, with the directories above it. -/
def create (fs : FileSystem) (p : Path) : FileSystem × Except Failure Unit :=
  let (fs, made) := match p.parent? with
    | some parent => fs.makeDirectories parent
    | none => (fs, .ok ())
  match made with
  | .error e => (fs, .error (.io e))
  | .ok () =>
    match fs.writeFile p [] with
    | .ok fs => (fs, .ok ())
    | .error e => (fs, .error (.io e))

end Draft

end SourceJar.Archive
