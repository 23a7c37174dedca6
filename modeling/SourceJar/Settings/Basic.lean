import SourceJar.Failure
import SourceJar.FileSystem.Operations
import SourceJar.Text.Blank

/-!
What a run is told to do: the settings.

Settings come from a file, then from the command line, and are checked before they are used. Which
paths count as archives, and what the archive written for one is called, follow from them.
-/

namespace SourceJar

/-- How classes are turned into source text. -/
structure BackendSettings where
  kind : BackendKind := .skeleton
  command : Option String := none
  temporaryDirectory : Option Path := none
  includePrivate : Bool := true
  deriving DecidableEq, Repr

/-- Where archives are written, and how they are recognised and named. -/
structure OutputSettings where
  destination : Path
  extensions : List String := ["jar"]
  suffix : String := "-sources"
  deriving DecidableEq, Repr

/-- All that a run is told to do. -/
structure Settings where
  backend : BackendSettings := {}
  output : OutputSettings
  jobs : Nat
  deriving DecidableEq, Repr

/-- What the command line says in place of the settings. -/
structure Overrides where
  destination : Option Path := none
  backend : Option BackendKind := none
  command : Option String := none
  temporaryDirectory : Option Path := none
  jobs : Option Nat := none
  deriving DecidableEq, Repr

namespace Settings

/-- The settings in the absence of any other word: output goes to the working directory, and there
are as many jobs as processors. -/
def standard (fs : FileSystem) (processors : Nat) : Settings :=
  { output := { destination := FileSystem.pathOf fs.workingDirectory }, jobs := processors }

/-- The settings with what the command line says. -/
def override (s : Settings) (o : Overrides) : Settings :=
  { backend :=
      { s.backend with
        kind := o.backend.getD s.backend.kind
        command := o.command <|> s.backend.command
        temporaryDirectory := o.temporaryDirectory <|> s.backend.temporaryDirectory }
    output := { s.output with destination := o.destination.getD s.output.destination }
    jobs := o.jobs.getD s.jobs }

/-- Whether there is a command with more to it than blanks. -/
def hasCommand (s : Settings) : Bool :=
  match s.backend.command with
  | some command => !(Text.trim command).isEmpty
  | none => false

/-- Checks the settings; the first fault counts. -/
def validate (s : Settings) (fs : FileSystem) : Except SettingsFault Unit :=
  if s.output.extensions.isEmpty then .error .noExtensions
  else if s.output.suffix = "" then .error .emptySuffix
  else if s.output.suffix.toList.any fun c => c == '/' || c == '\\' then
    .error (.suffixSeparator s.output.suffix)
  else if s.jobs = 0 then .error .noJobs
  else if s.backend.kind ≠ .skeleton ∧ ¬s.hasCommand then .error (.commandMissing s.backend.kind)
  else if fs.isFile s.output.destination then
    .error (.destinationIsFile s.output.destination.display)
  else .ok ()

/-- Whether a path has one of the extensions of archives, in whatever case. -/
def isArchivePath (s : Settings) (p : Path) : Bool :=
  match p.extensionText? with
  | some extension => s.output.extensions.any fun allowed =>
      Text.equalIgnoringAsciiCase allowed extension
  | none => false

end Settings

/-- The name of the archive written for a source: the suffix goes between stem and extension. -/
def outputName (source : Path) (suffix : String) : Except Failure String :=
  match source.stemText? with
  | none => .error (.invalidPath source.display)
  | some stem =>
    match source.extensionText? with
    | some extension => .ok (stem ++ suffix ++ "." ++ extension)
    | none => .ok (stem ++ suffix)

end SourceJar
