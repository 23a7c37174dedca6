import SourceJar.Batch.Outcome

/-!
The report on a batch: what came of each source, the sums over all, and the exit status that follows
from them.
-/

namespace SourceJar

/-- What a report says of one source. -/
inductive EntryStatus where
  | succeeded (report : ArchiveReport)
  | failed (message : String)
  | cancelled
  deriving DecidableEq, Repr

/-- One source in a report. -/
structure ReportEntry where
  source : Path
  status : EntryStatus
  deriving DecidableEq, Repr

/-- What a report says of an outcome; failures are worded for the person who runs the program. -/
def ReportEntry.ofOutcome (o : Outcome) : ReportEntry :=
  { source := o.source
    status := match o.result with
      | .ok report => .succeeded report
      | .error .cancelled => .cancelled
      | .error e => .failed e.userMessage }

/-- The sums of a report. -/
structure BatchSummary where
  archivesTotal : Nat := 0
  archivesSucceeded : Nat := 0
  archivesFailed : Nat := 0
  archivesCancelled : Nat := 0
  unitsTotal : Nat := 0
  unitsFailed : Nat := 0
  duration : Nat := 0
  deriving DecidableEq, Repr

namespace BatchSummary

/-- The sums with one more source. -/
def count (s : BatchSummary) (entry : ReportEntry) : BatchSummary :=
  let s := { s with archivesTotal := s.archivesTotal + 1 }
  match entry.status with
  | .succeeded report =>
    { s with
      archivesSucceeded := s.archivesSucceeded + 1
      unitsTotal := s.unitsTotal + report.unitsTotal
      unitsFailed := s.unitsFailed + report.failed.length }
  | .failed _ => { s with archivesFailed := s.archivesFailed + 1 }
  | .cancelled => { s with archivesCancelled := s.archivesCancelled + 1 }

end BatchSummary

/-- The report on a batch. -/
structure BatchReport where
  destination : Path
  backend : BackendKind
  archives : List ReportEntry
  summary : BatchSummary
  deriving DecidableEq, Repr

namespace BatchReport

/-- The report on the outcomes of a batch, which took so many milliseconds. -/
def ofOutcomes (outcomes : List Outcome) (destination : Path) (backend : BackendKind)
    (duration : Nat) : BatchReport :=
  let archives := outcomes.map ReportEntry.ofOutcome
  { destination, backend, archives, summary := archives.foldl .count { duration } }

/-- The report on a batch that took so many milliseconds. -/
def lasting (r : BatchReport) (duration : Nat) : BatchReport :=
  { r with summary := { r.summary with duration } }

/-- Nothing failed. -/
def exitSuccess : Nat := 0

/-- The run could not start. -/
def exitStartup : Nat := 1

/-- Some unit failed. -/
def exitFailedUnits : Nat := 2

/-- Some archive failed. -/
def exitFailedArchives : Nat := 3

/-- The run was cancelled. -/
def exitCancelled : Nat := 130

/-- The exit status of a run; the worst that happened counts. -/
def exitStatus (r : BatchReport) : Nat :=
  if 0 < r.summary.archivesCancelled then exitCancelled
  else if 0 < r.summary.archivesFailed then exitFailedArchives
  else if 0 < r.summary.unitsFailed then exitFailedUnits
  else exitSuccess

end BatchReport

end SourceJar
