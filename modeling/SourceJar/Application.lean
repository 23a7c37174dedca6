import SourceJar.Batch.Report
import SourceJar.Batch.Run
import SourceJar.CommandLine
import SourceJar.Console.Report
import SourceJar.Discovery
import SourceJar.StopFlag

/-!
The program as a whole: from what it finds around it and its command line to an exit status, what it
prints, and the file system that it leaves.
-/

namespace SourceJar

/-- What a run finds around it. -/
structure Environment where
  fs : FileSystem
  programs : Programs
  processors : Nat
  /-- Whether output goes to a terminal with colours. -/
  terminal : Bool := false
  /-- Whether the run was asked to stop. -/
  stop : StopFlag := {}
  /-- The time in messages. -/
  messageTime : String := ""
  /-- The time in reports. -/
  reportTime : String := ""

/-- What a run comes to. -/
structure RunResult where
  exitStatus : Nat
  printed : Printed
  fs : FileSystem

namespace Application

/-- The name and the number of the version. -/
def versionText : String := "jarsources 1.0.0"

/-- The settings for a run: those of the settings file with what the command line says, checked. -/
def loadSettings (e : Environment) (a : Arguments) : Except Failure Settings :=
  let standard := Settings.standard e.fs e.processors
  match Settings.loadOrStandard standard e.fs a.settingsFile with
  | .error fault => .error (.settings fault)
  | .ok loaded =>
    let settings := loaded.override a.overrides
    match settings.validate e.fs with
    | .error fault => .error (.settings fault)
    | .ok () => .ok settings

/-- The console for a run. -/
def consoleFor (e : Environment) (a : Arguments) : Console :=
  .make a.mode a.verbosity a.quiet e.terminal e.messageTime

/-! ## Decompiling -/

/-- Runs a batch over the archives that were found; the report leaves open how long that took. -/
def runBatch (e : Environment) (settings : Settings) (sources : List Path) :
    BatchReport × FileSystem :=
  let batch : Batch :=
    { settings, destination := settings.output.destination, programs := e.programs }
  let (outcomes, state) := batch.run sources e.fs
  (.ofOutcomes outcomes settings.output.destination settings.backend.kind 0, state.fs)

/-- Looks for archives and decompiles them. -/
def decompile (e : Environment) (c : Console) (settings : Settings) (inputs : List Path) :
    Except Failure BatchReport × Printed × FileSystem :=
  match e.stop.check with
  | .error failure => (.error failure, {}, e.fs)
  | .ok () =>
    let looking := c.start "Looking for archives to decompile"
    match Discovery.discover settings e.fs inputs with
    | .error failure => (.error failure, looking, e.fs)
    | .ok sources =>
      let found := c.info s!"Found {sources.length} archive(s)" ++
        c.debug ("Backend: " ++ settings.backend.kind.name ++ ", destination: " ++
          settings.output.destination.display) ++
        c.start "Decompiling archives"
      let (report, fs) := runBatch e settings sources
      (.ok report, looking ++ found, fs)

/-- How far a command line was followed. -/
inductive Work where
  | ended (result : RunResult)
  /-- A report is still to be printed. -/
  | reporting (console : Console) (printed : Printed) (report : BatchReport) (fs : FileSystem)

/-- Ends a run that took so many milliseconds at the time given. -/
def Work.finish (duration : Nat) (time : String) : Work → RunResult
  | .ended result => result
  | .reporting c printed report fs =>
    let report := report.lasting duration
    { exitStatus := report.exitStatus, printed := printed ++ c.report report time, fs }

/-- Decompiles, and prints why that was not possible. -/
def decompileFor (e : Environment) (c : Console) (settings : Settings) (inputs : List Path) : Work :=
  match decompile e c settings inputs with
  | (.ok report, printed, fs) => .reporting c printed report fs
  | (.error failure, printed, fs) => .ended
    { exitStatus := if failure = .cancelled then BatchReport.exitCancelled
        else BatchReport.exitStartup
      printed := printed ++ c.failure failure
      fs }

/-! ## Dry runs -/

/-- The settings, for those who want to see them. -/
def settingsLines (settings : Settings) : Printed :=
  .line ("  Backend: " ++ settings.backend.kind.name) ++
    (match settings.backend.command with
      | some command => .line ("  Command: " ++ command)
      | none => {}) ++
    .line ("  Archive extensions: " ++ ", ".intercalate settings.output.extensions) ++
    .line ("  Output suffix: " ++ settings.output.suffix) ++
    .line ("  Destination: " ++ settings.output.destination.display) ++
    .line s!"  Jobs: {settings.jobs}"

/-- Prints what would be done. -/
def dryRun (e : Environment) (a : Arguments) (c : Console) (settings : Settings) : RunResult :=
  let opening := c.info "DRY RUN MODE - nothing will be decompiled" ++ c.separator ++
    c.info "Configuration that would be used:" ++
    (if a.isVerbose then settingsLines settings else {})
  match Discovery.plan settings e.fs a.sources with
  | .error failure =>
    { exitStatus := BatchReport.exitStartup, printed := opening ++ c.failure failure, fs := e.fs }
  | .ok plan =>
    { exitStatus := BatchReport.exitSuccess
      printed := opening ++ c.header "Decompilation plan" ++ c.plan plan ++ c.separator ++
        c.success s!"Dry run completed: {plan.length} archive(s) would be processed"
      fs := e.fs }

/-! ## Settings files -/

/-- Writes a sample settings file. -/
def generateSettings (e : Environment) (a : Arguments) : RunResult :=
  let path := a.settingsFile.getD (Path.ofText "jarsources.toml")
  let name := path.display
  match e.fs.writeFile path (Utf8.encode (Settings.standard e.fs e.processors).sample) with
  | .ok fs =>
    { exitStatus := BatchReport.exitSuccess
      printed := .line ("Generated sample configuration file: " ++ name) ++
        .line "\nTo use this configuration:" ++
        .line ("  jarsources <jar-or-directory> --config " ++ name) ++
        .line "\nEdit the file to choose a backend and destination."
      fs }
  | .error fault =>
    let failure : Failure := .io fault
    { exitStatus := BatchReport.exitStartup
      printed := .errorLine ("Failed to generate configuration file: " ++ failure.userMessage) ++
        (match failure.suggestion? with
          | some suggestion => .errorLine ("Suggestion: " ++ suggestion)
          | none => {})
      fs := e.fs }

/-! ## The program -/

/-- What is said of a command line that is not followed. -/
def usageText : UsageError → String
  | .helpWanted => "Usage: jarsources [OPTIONS] [SOURCES]..."
  | .versionWanted => versionText
  | .nothingGiven => "Usage: jarsources [OPTIONS] [SOURCES]..."
  | .sourceMissing => "error: no source is given"
  | .conflict => "error: two arguments cannot be used together"
  | .badValue => "error: a value is missing or not allowed"
  | .badNumber => "error: a value is not a number in range"
  | .unwantedValue => "error: an option takes no value"
  | .unknownOption => "error: an option is unknown"

/-- The exit status of a command line that is not followed, unless it asks for information. -/
def exitUsage : Nat := 2

/-- Turns down a command line, or gives the information it asks for. -/
def refuse (e : Environment) (usage : UsageError) : RunResult :=
  if usage = .helpWanted ∨ usage = .versionWanted then
    { exitStatus := BatchReport.exitSuccess, printed := .line (usageText usage), fs := e.fs }
  else { exitStatus := exitUsage, printed := .errorLine (usageText usage), fs := e.fs }

/-- Follows a command line. -/
def follow (e : Environment) (a : Arguments) : Work :=
  if a.generateSettings then .ended (generateSettings e a)
  else
    match loadSettings e a with
    | .error failure =>
      let c : Console := .make a.mode 0 false e.terminal e.messageTime
      .ended { exitStatus := BatchReport.exitStartup, printed := c.failure failure, fs := e.fs }
    | .ok settings =>
      if a.dryRun then .ended (dryRun e a (consoleFor e a) settings)
      else decompileFor e (consoleFor e a) settings a.sources

/-- Does the work that a command line asks for. -/
def work (e : Environment) (arguments : List String) : Work :=
  match CommandLine.parse arguments with
  | .error usage => .ended (refuse e usage)
  | .ok a => follow e a

/-- Runs the program; the work is taken to last `duration` milliseconds. -/
def run (e : Environment) (arguments : List String) (duration : Nat) : RunResult :=
  (work e arguments).finish duration e.reportTime

end Application

end SourceJar
