import SourceJar.Backend.Basic
import SourceJar.Batch.Outcome
import SourceJar.Batch.Progress
import SourceJar.Traversal

/-!
Batches: one job after another, each turning one archive into an archive of sources.

A job opens its archive, makes a temporary output in the destination and a backend of its own,
traverses the archive into the output, and at the end moves the output to its name. If anything fails
on the way the temporary output is taken away again, so a job that fails leaves no file behind. Jobs
do not know of each other, except that a source whose output name was claimed by an earlier source is
turned down. A job reports its stages; the batch may be asked to stop after any number of reports,
and a job looks for that before it starts and before each unit.
-/

namespace SourceJar

open Archive

/-- What a batch is told. -/
structure Batch where
  settings : Settings
  destination : Path
  programs : Programs
  /-- After how many reports the batch is asked to stop, if it ever is. -/
  stopAfter : Option Nat := none

namespace Batch

/-- How far a batch has come: the file system, the reports so far, and the units that the current
job is done with. -/
structure State where
  fs : FileSystem
  events : List ProgressEvent := []
  done : Nat := 0

/-- Reports progress. -/
def State.say (s : State) (job : Nat) (stage : Stage) (text : String) : State :=
  { s with events := s.events ++ [⟨job, stage, text⟩] }

/-- Whether the batch is asked to stop. -/
def stops (b : Batch) (s : State) : Bool :=
  match b.stopAfter with
  | some count => decide (count ≤ s.events.length)
  | none => false

/-! ## Jobs -/

/-- A job whose archive was opened. -/
structure Job where
  index : Nat
  title : String
  root : Entry
  outputName : String
  outputPath : Path
  attachment : Attachment

/-- The surroundings of a job's traversal. -/
def host (b : Batch) (backend : Backend) (job : Job) : Host State (Except IoFault Bytes) :=
  { stops := b.stops
    decompile := fun unit s =>
      let (result, fs) := backend.decompile b.programs unit s.fs
      (result, { s with fs })
    report := fun unit s =>
      ({ s with done := s.done + 1 }).say job.index (.unit (s.done + 1) job.root.unitCount)
        (job.title ++ ": " ++ unit.name) }

/-- How the name of a temporary output starts. -/
def temporaryStart : String := ".jarsources-"

/-- How the name of a temporary output ends. -/
def temporaryEnd : String := ".tmp"

/-- The report of a job that went well. -/
def reportOf (job : Job) (backend : Backend) (t : Traversal State) : ArchiveReport :=
  { sourceName := job.root.name
    outputName := job.outputName
    outputPath := job.outputPath
    failed := t.failed
    unitsTotal := job.root.unitCount
    backend := backend.name
    attachment := job.attachment
    written := t.draft.summary }

/-- Traverses the archive and moves the temporary output at `place` to its name. -/
def deliver (b : Batch) (job : Job) (backend : Backend) (place : Place) (s : State) :
    Except Failure ArchiveReport × State :=
  match Traversal.run (b.host backend job) job.root { state := s } with
  | (.error e, t) => (.error e, { t.state with fs := backend.close t.state.fs })
  | (.ok (), t) =>
    let s := t.state.say job.index .writing ("Writing " ++ job.outputName)
    let fs := (backend.close s.fs).put place (.file t.draft.encode)
    match fs.moveFile place job.outputPath with
    | .error e => (.error (.io e), { s with fs })
    | .ok fs => (.ok (reportOf job backend t), { s with fs })

/-- Makes the backend and uses it. -/
def fill (b : Batch) (job : Job) (place : Place) (s : State) :
    Except Failure ArchiveReport × State :=
  match Backend.make b.settings.backend s.fs with
  | (fs, .error e) => (.error e, { s with fs })
  | (fs, .ok backend) =>
    b.deliver job backend place
      (({ s with fs, done := 0 }).say job.index .decompiling ("Decompiling " ++ job.title))

/-- Makes the temporary output, and takes it away again if the job fails. -/
def produce (b : Batch) (job : Job) (s : State) : Except Failure ArchiveReport × State :=
  let directory := (FileSystem.pathOf s.fs.workingDirectory).join b.destination
  match s.fs.makeFresh directory temporaryStart temporaryEnd (.file []) with
  | .error e => (.error (.io e), s)
  | .ok (fs, place) =>
    match b.fill job place { s with fs } with
    | (.ok report, s) => (.ok report, s)
    | (.error e, s) => (.error e, { s with fs := s.fs.erase place })

/-- Opens the archive of a job. -/
def openJob (b : Batch) (index : Nat) (title : String) (source : Path) (fs : FileSystem) :
    Except Failure Job := do
  let root ← openArchive fs source
  let outputName ← outputName source b.settings.output.suffix
  let outputPath := b.destination.join (Path.ofText outputName)
  let attachment := if fs.pathExists outputPath then .updated else .created
  return { index, title, root, outputName, outputPath, attachment }

/-- The name of a source that can be worked on. -/
def titleFor (b : Batch) (source : Path) (s : State) : Except Failure String :=
  if b.stops s then .error .cancelled
  else if ¬b.settings.isArchivePath source then .error (.unsupportedArchive source.display)
  else nameOf source

/-- Runs one job. -/
def runJob (b : Batch) (index : Nat) (source : Path) (s : State) :
    Except Failure ArchiveReport × State :=
  match b.titleFor source s with
  | .error e => (.error e, s)
  | .ok title =>
    let s := s.say index .opening ("Opening " ++ title)
    match b.openJob index title source s.fs with
    | .error e => (.error e, s)
    | .ok job => b.produce job s

/-! ## Conflicts -/

/-- The output name that a source claims. -/
def claim? (settings : Settings) (source : Path) : Option String :=
  if settings.isArchivePath source then (outputName source settings.output.suffix).toOption else none

/-- For each source, the earlier one that claimed its output name. -/
def conflictsAfter (settings : Settings) :
    (claimed : List (String × Path)) → List Path → List (Option Path)
  | _, [] => []
  | claimed, source :: rest =>
    match claim? settings source with
    | none => none :: conflictsAfter settings claimed rest
    | some name =>
      match claimed.lookup name with
      | some first => some first :: conflictsAfter settings claimed rest
      | none => none :: conflictsAfter settings ((name, source) :: claimed) rest

/-- For each source, the earlier one that claims its output name. -/
def conflicts (settings : Settings) (sources : List Path) : List (Option Path) :=
  conflictsAfter settings [] sources

/-- What is said of a source whose output name is claimed. -/
def conflictFailure (settings : Settings) (source first : Path) : Failure :=
  .outputConflict ((outputName source settings.output.suffix).toOption.getD source.display)
    first.display

/-! ## The whole batch -/

/-- What comes of one source. -/
def resultOf (b : Batch) (index : Nat) (source : Path) (conflict : Option Path) (s : State) :
    Except Failure ArchiveReport × State :=
  match conflict with
  | some first => (.error (conflictFailure b.settings source first), s)
  | none => b.runJob index source s

/-- Deals with one source. -/
def runSource (b : Batch) (index : Nat) (source : Path) (conflict : Option Path) (s : State) :
    Outcome × State :=
  let (result, s) := b.resultOf index source conflict s
  (⟨source, result⟩, s.say index .finished ("Finished " ++ source.display))

/-- Deals with sources one after another. -/
def runFrom (b : Batch) : (index : Nat) → List (Path × Option Path) → State → List Outcome × State
  | _, [], s => ([], s)
  | index, (source, conflict) :: rest, s =>
    let (outcome, s) := b.runSource index source conflict s
    let (outcomes, s) := b.runFrom (index + 1) rest s
    (outcome :: outcomes, s)

/-- Runs a batch over sources; the destination is made first. -/
def run (b : Batch) (sources : List Path) (fs : FileSystem) : List Outcome × State :=
  match fs.makeDirectories b.destination with
  | (fs, .error e) => (sources.map fun source => ⟨source, .error (.io e)⟩, { fs })
  | (fs, .ok ()) => b.runFrom 0 (sources.zip (conflicts b.settings sources)) { fs }

end Batch

end SourceJar
