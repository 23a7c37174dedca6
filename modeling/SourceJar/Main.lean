import SourceJar.Application
import SourceJar.Console.Timestamp
import SourceJar.Tool.System
import Std.Time.DateTime.Timestamp

/-!
The command line program.

The files that a run can look at are read into a `FileSystem` value, `Application.work` does the work
on it, and what differs afterwards is written back. Nothing is decided here.
-/

namespace SourceJar.Main

/-- The most directories that a path can lead through. -/
def maxDepth : Nat := FileSystem.maxPath / 2

/-- The names that an absolute path goes along. -/
def placeOf (path : Path) : Place :=
  path.components.foldl (fun place component => match component with
    | .parent => place.dropLast
    | .name name => place ++ [name]
    | _ => place) []

/-- The place of an absolute path that is text. -/
def placeOfText (text : String) : Place := placeOf (Path.ofText text)

/-- The text of a place. -/
def textOf (place : Place) : String := (FileSystem.pathOf place).display

/-! ## Reading -/

/-- Reads what stands at a place and, to a depth, below it. Links are read and not followed. -/
def observe : (depth : Nat) → Place → FileSystem → IO FileSystem
  | depth, place, fs => do
    let path := (← IO.currentDir) / textOf place
    match ← path.symlinkMetadata.toBaseIO with
    | .error _ => return fs
    | .ok found =>
      match found.type, depth with
      | .file, _ =>
        match ← (IO.FS.readBinFile path).toBaseIO with
        | .ok content => return fs.put place (.file content.toList)
        | .error _ => return fs.put place .device
      | .symlink, _ =>
        match ← (IO.FS.realPath path).toBaseIO with
        | .ok target => return fs.put place (.link (Path.ofText target.toString))
        | .error _ => return fs.put place (.link (FileSystem.pathOf (place ++ [[Path.dot]])))
      | .other, _ => return fs.put place .device
      | .dir, 0 => return fs.put place .directory
      | .dir, depth + 1 =>
        let entries := (← path.readDir.toBaseIO).toOption.getD #[]
        entries.foldlM (fun fs entry => observe depth (place ++ [Utf8.encode entry.fileName]) fs)
          (fs.put place .directory)

/-- Reads the places on the way to a place, and it and what is below it to a depth. -/
def observeAlong (depth : Nat) (place : Place) (fs : FileSystem) : IO FileSystem := do
  let above := (List.range place.length).drop 1 |>.map place.take
  observe depth place (← above.foldlM (fun fs place => observe 0 place fs) fs)

/-- Reads what a path leads to, by its own names and, links followed, by others. -/
def observePath (depth : Nat) (path : Path) (fs : FileSystem) : IO FileSystem := do
  let absolute := (FileSystem.pathOf fs.workingDirectory).join path
  let fs ← observeAlong depth (placeOf absolute) fs
  match ← (IO.FS.realPath absolute.display).toBaseIO with
  | .ok real => observeAlong depth (placeOfText real.toString) fs
  | .error _ => return fs

/-- The number of processors, or one if it is not known. -/
def processors : IO Nat := do
  match ← (IO.FS.readFile "/proc/cpuinfo").toBaseIO with
  | .ok text =>
    return max 1 ((Split.splitOn '\n' text.toList).countP
      (Split.dropStart? "processor".toList · |>.isSome))
  | .error _ => return 1

/-- The current time, in nanoseconds since the start of 1970. -/
def now : IO Nat := return (← Std.Time.Timestamp.now).toNanosecondsSinceUnixEpoch.val.toNat

/-- What the run finds around it, before any file is read. -/
def bareEnvironment : IO Environment := do
  let temporary := (← IO.getEnv "TMPDIR").getD "/tmp"
  let time ← now
  return {
    fs := {
      nodes := []
      workingDirectory := placeOfText (← IO.currentDir).toString
      temporaryDirectory := placeOfText temporary }
    programs := Tool.start
    processors := ← processors
    terminal := ← (← IO.getStdout).isTty
    messageTime := Timestamp.text time Timestamp.messageOffset }

/-- The paths at which settings can be. -/
def settingsPaths (a : Arguments) : List Path :=
  match a.settingsFile with
  | some path => [path]
  | none => Settings.standardFiles.map Path.ofText

/-- Reads what a command line makes a run look at: the settings, and then the sources, the
destination and the directory for temporary files. -/
def environmentFor (a : Arguments) : IO Environment := do
  let e ← bareEnvironment
  let start := FileSystem.pathOf e.fs.workingDirectory
  let fs ← (start :: settingsPaths a).foldlM (fun fs path => observePath 0 path fs) e.fs
  let e := { e with fs }
  match Application.loadSettings e a with
  | .error _ => return e
  | .ok settings =>
    let fs ← observePath 1 settings.output.destination e.fs
    let temporary := settings.backend.temporaryDirectory.getD
      (FileSystem.pathOf fs.temporaryDirectory)
    let fs ← observePath 0 temporary fs
    return { e with fs := ← a.sources.foldlM (fun fs path => observePath maxDepth path fs) fs }

/-! ## Writing -/

/-- Writes one thing that is new or different. -/
def writeBack (before : FileSystem) (entry : Place × Inode) : IO Unit := do
  let (place, node) := entry
  if before.get? place ≠ some node then
    match node with
    | .directory => IO.FS.createDirAll (textOf place)
    | .file content => IO.FS.writeBinFile (textOf place) ⟨content.toArray⟩
    | _ => return ()

/-- Makes the files what a run has left. -/
def writeChanges (before after : FileSystem) : IO Unit := do
  for (place, node) in before.nodes do
    if (after.get? place).isNone ∧ node ≠ .directory then IO.FS.removeFile (textOf place)
  (after.below []).forM (writeBack before)

/-- Prints and exits. -/
def conclude (before : FileSystem) (result : RunResult) : IO UInt32 := do
  writeChanges before result.fs
  IO.print result.printed.out
  IO.eprint result.printed.err
  return result.exitStatus.toUInt32

end SourceJar.Main

open SourceJar in
/-- Follows the command line. -/
def main (arguments : List String) : IO UInt32 := do
  let e ← match CommandLine.parse arguments with
    | .ok a => Main.environmentFor a
    | .error _ => Main.bareEnvironment
  let started ← IO.monoMsNow
  let work ← IO.lazyPure fun _ => Application.work e arguments
  let ended ← IO.monoMsNow
  let time := Timestamp.text (← Main.now) Timestamp.reportOffset
  Main.conclude e.fs (work.finish (ended - started) time)
