import SourceJar.Batch.Report
import SourceJar.Console.Basic
import SourceJar.Console.Duration

/-!
Printing the report on a batch.
-/

namespace SourceJar

/-! ## As JSON -/

def Archive.WriteSummary.toJson (w : Archive.WriteSummary) : Json :=
  .object [("directories", .number w.directories), ("files", .number w.files),
    ("bytes_written", .number w.bytesWritten)]

def ArchiveReport.toJson (r : ArchiveReport) : Json :=
  .object [("source_archive_name", .string r.sourceName),
    ("output_archive_name", .string r.outputName), ("output_path", .string r.outputPath.display),
    ("failed_unit_names", .list (r.failed.map .string)), ("units_total", .number r.unitsTotal),
    ("backend", .string r.backend), ("attachment", .string r.attachment.name),
    ("written", r.written.toJson), ("duration", .number r.duration)]

def ReportEntry.toJson (e : ReportEntry) : Json :=
  .object (("source", .string e.source.display) ::
    match e.status with
    | .succeeded report => [("status", .string "succeeded"), ("report", report.toJson)]
    | .failed message => [("status", .string "failed"), ("error", .string message)]
    | .cancelled => [("status", .string "cancelled")])

def BatchSummary.toJson (s : BatchSummary) : Json :=
  .object [("archives_total", .number s.archivesTotal),
    ("archives_succeeded", .number s.archivesSucceeded),
    ("archives_failed", .number s.archivesFailed),
    ("archives_cancelled", .number s.archivesCancelled), ("units_total", .number s.unitsTotal),
    ("units_failed", .number s.unitsFailed), ("duration_ms", .number s.duration)]

/-- The report with the time at which it was made. -/
def BatchReport.toJson (r : BatchReport) (time : String) : Json :=
  .object [("generated_at", .string time), ("destination", .string r.destination.display),
    ("backend", .string r.backend.name), ("archives", .list (r.archives.map ReportEntry.toJson)),
    ("summary", r.summary.toJson)]

namespace Console

/-! ## For people -/

/-- A value that stands out. -/
def highlight (c : Console) (value : String) : String :=
  if c.colours then styled [.cyan, .bold] value else value

/-- A line with a picture and a colour, or a mark in their place. -/
def markedLine (c : Console) (picture : Picture) (style : Style) (mark text : String) : Printed :=
  if c.colours then .line (picture.text ++ styled [style] text) else .line (mark ++ text)

/-- The line on an archive whose sources were written. -/
def succeededText (r : ArchiveReport) : String :=
  let verb := match r.attachment with
    | .created => "Created "
    | .updated => "Updated "
  verb ++ r.outputPath.display ++ s!" ({r.unitsDecompiled}/{r.unitsTotal} classes)"

/-- What people read of one source. -/
def humanEntry (c : Console) (e : ReportEntry) : Printed :=
  match e.status with
  | .succeeded r =>
    c.markedLine .check .green "✓ " (succeededText r) ++
      if r.failed.isEmpty then {}
      else .line ("    could not decompile: " ++ ", ".intercalate r.failed)
  | .cancelled =>
    if c.colours then c.markedLine .stop .yellow "" e.source.display
    else .line ("- " ++ e.source.display ++ " (cancelled)")
  | .failed message => c.markedLine .cross .red "✗ " (e.source.display ++ ": " ++ message)

def humanReport (c : Console) (r : BatchReport) : Printed :=
  let s := r.summary
  let n (count : Nat) : String := c.highlight (toString count)
  c.header "Decompilation Report" ++ .all (r.archives.map c.humanEntry) ++ .line "" ++
    c.separator ++
    .line ("  Archives:   " ++ n s.archivesSucceeded ++ " succeeded, " ++ n s.archivesFailed ++
      " failed, " ++ n s.archivesCancelled ++ " cancelled") ++
    .line ("  Classes:    " ++ n (s.unitsTotal - s.unitsFailed) ++ " decompiled, " ++
      n s.unitsFailed ++ " failed") ++
    .line ("  Backend:    " ++ r.backend.name) ++
    .line ("  Output:     " ++ r.destination.display) ++
    .line ("  Time taken: " ++ c.highlight (durationText s.duration)) ++ c.separator

/-! ## As plain text -/

def plainEntry (e : ReportEntry) : Printed :=
  match e.status with
  | .succeeded r =>
    .line ("OK " ++ e.source.display ++ " -> " ++ r.outputPath.display ++
      " failed=" ++ toString r.failed.length) ++
      .all (r.failed.map fun unit => .line ("FAILED_UNIT " ++ r.sourceName ++ " " ++ unit))
  | .cancelled => .line ("CANCELLED " ++ e.source.display)
  | .failed message => .line ("ERROR " ++ e.source.display ++ ": " ++ message)

def plainReport (r : BatchReport) : Printed :=
  let s := r.summary
  .all (r.archives.map plainEntry) ++
    .line (s!"SUMMARY archives={s.archivesTotal} succeeded={s.archivesSucceeded} " ++
      s!"failed={s.archivesFailed} cancelled={s.archivesCancelled} " ++
      s!"units={s.unitsTotal} units_failed={s.unitsFailed}")

/-- The report on a batch. As JSON it is printed even if quiet is wanted. -/
def report (c : Console) (r : BatchReport) (time : String) : Printed :=
  match c.mode with
  | .json => .line (r.toJson time).pretty
  | .human => if c.quiet then {} else c.humanReport r
  | .plain => if c.quiet then {} else plainReport r

end Console

end SourceJar
