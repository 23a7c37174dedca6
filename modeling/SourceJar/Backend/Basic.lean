import SourceJar.Backend.Command
import SourceJar.Java.Skeleton

/-!
Backends: what turns the classes of one archive into source text.

The skeleton backend reads a class itself. The stream backend hands the class's bytes to a command as
its input. The temp-file backend copies the class to a file below a directory of its own, at the path
that it has in the archive, hands the file's path to a command and removes the file afterwards; the
directory is made with the backend and removed with it.
-/

namespace SourceJar

open Archive

/-- A backend that is ready for use. -/
inductive Backend where
  | skeleton (options : Java.Options)
  | stream (command : ExternalCommand)
  /-- The directory `root` stands at `place`. -/
  | tempfile (command : ExternalCommand) (root : Path) (place : Place)
  deriving DecidableEq, Repr

namespace Backend

def kind : Backend → BackendKind
  | .skeleton _ => .skeleton
  | .stream _ => .stream
  | .tempfile .. => .tempfile

def name (b : Backend) : String := b.kind.name

/-! ## Making and closing -/

/-- How the name of a temp-file backend's directory starts. -/
def rootStart : String := "jarsources-"

/-- The command that the settings give. -/
def commandOf (s : BackendSettings) : Except Failure ExternalCommand :=
  match s.command with
  | none => .error (.backend (.commandMissing s.kind))
  | some line =>
    match ExternalCommand.parse line with
    | .ok command => .ok command
    | .error e => .error (.settings e)

/-- Makes a directory with a new name in the directory at `base`. -/
def makeRoot (command : ExternalCommand) (base : Path) (fs : FileSystem) :
    FileSystem × Except Failure Backend :=
  match fs.makeFresh base rootStart "" .directory with
  | .error e => (fs, .error (.io e))
  | .ok (fs, place) =>
    (fs, .ok (.tempfile command (base.join ⟨place.getLast?.getD []⟩) place))

/-- Makes a temp-file backend, with its directory in the one asked for or in that of the system. -/
def makeTempfile (command : ExternalCommand) (asked : Option Path) (fs : FileSystem) :
    FileSystem × Except Failure Backend :=
  match asked with
  | none => makeRoot command (FileSystem.pathOf fs.temporaryDirectory) fs
  | some directory =>
    match fs.makeDirectories directory with
    | (fs, .error e) => (fs, .error (.io e))
    | (fs, .ok ()) => makeRoot command ((FileSystem.pathOf fs.workingDirectory).join directory) fs

/-- Makes the backend that the settings ask for. -/
def make (s : BackendSettings) (fs : FileSystem) : FileSystem × Except Failure Backend :=
  match s.kind with
  | .skeleton => (fs, .ok (.skeleton { includePrivate := s.includePrivate }))
  | .stream =>
    match commandOf s with
    | .error e => (fs, .error e)
    | .ok command => (fs, .ok (.stream command))
  | .tempfile =>
    match commandOf s with
    | .error e => (fs, .error e)
    | .ok command => makeTempfile command s.temporaryDirectory fs

/-- What is left of the file system without the backend. -/
def close (b : Backend) (fs : FileSystem) : FileSystem :=
  match b with
  | .tempfile _ _ place => fs.eraseTree place
  | _ => fs

/-! ## Units -/

/-- Where a unit is copied to: its names inside the archive, below the root. -/
def temporaryPath (root : Path) (unit : Entry) : Path :=
  (Path.ofText unit.entryPath).components.foldl (fun p component =>
    match component with
    | .name bytes => p.join ⟨bytes⟩
    | _ => p) root

/-- Makes a file with the directories above it. -/
def makeCopy (p : Path) (content : Bytes) (fs : FileSystem) : FileSystem × Except IoFault Unit :=
  let (fs, made) := match p.parent? with
    | some parent => fs.makeDirectories parent
    | none => (fs, .ok ())
  match made with
  | .error e => (fs, .error e)
  | .ok () =>
    match fs.writeFile p content with
    | .ok fs => (fs, .ok ())
    | .error e => (fs, .error e)

/-- Runs a command on a copy of a unit, which is removed afterwards. The command's own failure counts
before that of the removal. -/
def decompileCopy (programs : Programs) (command : ExternalCommand) (p : Path) (unit : String)
    (content : Bytes) (fs : FileSystem) : Except UnitFailure String × FileSystem :=
  match makeCopy p content fs with
  | (fs, .error e) => (.error (.io unit e), fs)
  | (fs, .ok ()) =>
    let (result, fs) :=
      command.run programs (command.argumentsFor p.display) unit [] content.isEmpty fs
    match fs.removeFile p with
    | .ok fs => (result, fs)
    | .error e =>
      match result with
      | .ok _ => (.error (.io unit e), fs)
      | .error failure => (.error failure, fs)

/-- The skeleton of a unit with the given content. -/
def skeletonOf (options : Java.Options) (unit : String) (content : Bytes) :
    Except UnitFailure String :=
  match Java.skeleton options content with
  | .ok text => .ok text
  | .error e => .error (.refused unit e.message)

/-- Turns a unit into source text. -/
def decompile (programs : Programs) (b : Backend) (unit : Entry) (fs : FileSystem) :
    Except UnitFailure String × FileSystem :=
  match readContent unit with
  | .error e => (.error (.io unit.name e), fs)
  | .ok content =>
    match b with
    | .skeleton options => (skeletonOf options unit.name content, fs)
    | .stream command =>
      command.run programs command.arguments unit.name content content.isEmpty fs
    | .tempfile command root _ =>
      decompileCopy programs command (temporaryPath root unit) unit.name content fs

end Backend

end SourceJar
