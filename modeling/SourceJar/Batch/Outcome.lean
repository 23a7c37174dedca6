import SourceJar.Archive.Draft
import SourceJar.Failure

/-!
What comes of the jobs of a batch.
-/

namespace SourceJar

/-- Whether an output is new or took the place of an earlier one. -/
inductive Attachment where
  | created
  | updated
  deriving DecidableEq, Repr

def Attachment.name : Attachment → String
  | .created => "created"
  | .updated => "updated"

/-- What is known of an archive whose sources were written; durations are in milliseconds. -/
structure ArchiveReport where
  sourceName : String
  outputName : String
  outputPath : Path
  /-- The names of the units that failed, in order and without repeats. -/
  failed : List String
  unitsTotal : Nat
  backend : String
  attachment : Attachment
  written : Archive.WriteSummary
  duration : Nat := 0
  deriving DecidableEq, Repr

/-- How many units were turned into source text, going by the names of those that failed. -/
def ArchiveReport.unitsDecompiled (r : ArchiveReport) : Nat := r.unitsTotal - r.failed.length

/-- What came of one source. -/
structure Outcome where
  source : Path
  result : Except Failure ArchiveReport

/-- Whether the job was cancelled. -/
def Outcome.isCancelled (o : Outcome) : Bool :=
  match o.result with
  | .error .cancelled => true
  | _ => false

end SourceJar
