import SourceJar.Console.Basic
import SourceJar.Settings.File

/-!
The command line.

Arguments are options, with or without a value, and sources. An option is a word after two dashes,
with its value after an equals sign or in the next argument, or a letter after one dash, with its value
in the rest of the argument or in the next one; letters without values can stand together. Two
dashes alone end the options. A value in an argument of its own must not look like an option. Values are
looked at when the next option or source comes, so what is wrong with an option is said in the order of
the arguments, except that an unknown option counts before a bad value right in front of it.
-/

namespace SourceJar

/-- What the command line says. -/
structure Arguments where
  sources : List Path := []
  destination : Option Path := none
  backend : Option BackendKind := none
  command : Option String := none
  temporaryDirectory : Option Path := none
  settingsFile : Option Path := none
  jobs : Option Nat := none
  mode : OutputMode := .human
  verbosity : Nat := 0
  quiet : Bool := false
  dryRun : Bool := false
  generateSettings : Bool := false
  deriving DecidableEq, Repr

namespace Arguments

/-- Whether more than the usual is wanted. -/
def isVerbose (a : Arguments) : Bool := decide (0 < a.verbosity) && !a.quiet

/-- How much is wanted. -/
def verbosityLevel (a : Arguments) : Nat := if a.quiet then 0 else a.verbosity

/-- What the command line says in place of the settings. -/
def overrides (a : Arguments) : Overrides :=
  { destination := a.destination
    backend := a.backend
    command := a.command
    temporaryDirectory := a.temporaryDirectory
    jobs := a.jobs }

end Arguments

/-- Why a command line is not followed. -/
inductive UsageError where
  | helpWanted
  | versionWanted
  /-- There is no argument at all. -/
  | nothingGiven
  | sourceMissing
  /-- Two options exclude each other, or one is given twice. -/
  | conflict
  /-- A value is missing, empty or not one of those allowed. -/
  | badValue
  | badNumber
  /-- An option without a value is given one. -/
  | unwantedValue
  | unknownOption
  deriving DecidableEq, Repr

namespace CommandLine

/-- The options without a value. -/
inductive Flag where
  | verbose
  | quiet
  | dryRun
  | generateSettings
  | help
  | version
  deriving DecidableEq, Repr

/-- The options with a value. -/
inductive Setting where
  | destination
  | backend
  | command
  | temporaryDirectory
  | settingsFile
  | jobs
  | mode
  deriving DecidableEq, Repr

/-- The options. -/
inductive Opt where
  | flag (flag : Flag)
  | setting (setting : Setting)
  deriving DecidableEq, Repr

/-- The options by their words. -/
def longNames : List (String × Opt) :=
  [("destination", .setting .destination), ("backend", .setting .backend),
    ("command", .setting .command), ("temp-dir", .setting .temporaryDirectory),
    ("config", .setting .settingsFile), ("jobs", .setting .jobs), ("output-format", .setting .mode),
    ("verbose", .flag .verbose), ("quiet", .flag .quiet), ("dry-run", .flag .dryRun),
    ("generate-config", .flag .generateSettings), ("help", .flag .help), ("version", .flag .version)]

/-- The options by their letters. -/
def shortNames : List (Char × Opt) :=
  [('d', .setting .destination), ('b', .setting .backend), ('c', .setting .settingsFile),
    ('j', .setting .jobs), ('v', .flag .verbose), ('q', .flag .quiet), ('h', .flag .help),
    ('V', .flag .version)]

/-- What still waits to be looked at: an option, with its value if that has come, or sources. -/
inductive Pending where
  | nothing
  | setting (setting : Setting) (value : Option String)
  | sources (texts : List String)
  deriving DecidableEq, Repr

/-- How far the arguments are read. -/
structure State where
  arguments : Arguments := {}
  given : List Opt := []
  pending : Pending := .nothing
  deriving DecidableEq, Repr

/-! ## Values -/

/-- The greatest number that an option takes. -/
def maxNumber : Nat := Nat.pow 2 64 - 1

/-- A decimal number with an optional plus sign. -/
def number? (text : String) : Option Nat :=
  let digits := match text.toList with
    | '+' :: digits => digits
    | digits => digits
  if digits.isEmpty || !digits.all Char.isDigit then none
  else
    let n := digits.foldl (fun n c => n * 10 + (c.toNat - '0'.toNat)) 0
    if n ≤ maxNumber then some n else none

/-- A path, which must not be empty. -/
def readPath (text : String) : Except UsageError Path :=
  if text.isEmpty then .error .badValue else .ok (Path.ofText text)

def readBackend (text : String) : Except UsageError BackendKind :=
  match Settings.backendNamed? text with
  | some kind => .ok kind
  | none => .error .badValue

def readMode (text : String) : Except UsageError OutputMode :=
  if text = "human" then .ok .human
  else if text = "json" then .ok .json
  else if text = "plain" then .ok .plain
  else .error .badValue

def readNumber (text : String) : Except UsageError Nat :=
  match number? text with
  | some n => .ok n
  | none => .error .badNumber

/-- Gives an option its value. -/
def assign (setting : Setting) (text : String) (a : Arguments) : Except UsageError Arguments := do
  match setting with
  | .destination => return { a with destination := some (← readPath text) }
  | .backend => return { a with backend := some (← readBackend text) }
  | .command => return { a with command := some text }
  | .temporaryDirectory => return { a with temporaryDirectory := some (← readPath text) }
  | .settingsFile => return { a with settingsFile := some (← readPath text) }
  | .jobs => return { a with jobs := some (← readNumber text) }
  | .mode => return { a with mode := ← readMode text }

/-! ## Steps -/

/-- Takes note of an option with its value, which is given once. -/
def State.giveValue (s : State) (setting : Setting) (text : String) : Except UsageError State := do
  if s.given.contains (.setting setting) then .error .conflict
  else
    let arguments ← assign setting text s.arguments
    return { s with arguments, given := .setting setting :: s.given, pending := .nothing }

/-- Looks at what was waiting. -/
def State.settle (s : State) : Except UsageError State := do
  match s.pending with
  | .nothing => return s
  | .setting _ none => .error .badValue
  | .setting setting (some text) => s.giveValue setting text
  | .sources texts =>
    let sources ← texts.mapM readPath
    return { s with
      arguments := { s.arguments with sources := s.arguments.sources ++ sources }
      pending := .nothing }

/-- The greatest count of an option that can be repeated. -/
def maxCount : Nat := 255

/-- Takes note of an option without a value. -/
def State.giveFlag (s : State) (flag : Flag) : Except UsageError State := do
  let s ← s.settle
  let once (arguments : Arguments) : Except UsageError State :=
    if s.given.contains (.flag flag) then .error .conflict
    else .ok { s with arguments, given := .flag flag :: s.given }
  match flag with
  | .help => .error .helpWanted
  | .version => .error .versionWanted
  | .verbose =>
    return { s with
      arguments := { s.arguments with verbosity := min (s.arguments.verbosity + 1) maxCount }
      given := .flag .verbose :: s.given }
  | .quiet => once { s.arguments with quiet := true }
  | .dryRun => once { s.arguments with dryRun := true }
  | .generateSettings => once { s.arguments with generateSettings := true }

/-- Takes note of an option with a value that is there already, or is still to come. -/
def State.giveSetting (s : State) (setting : Setting) (value : Option String) :
    Except UsageError State := do
  let s ← s.settle
  match value with
  | some text => s.giveValue setting text
  | none => return { s with pending := .setting setting none }

/-- Reads what follows two dashes. -/
def State.readLong (s : State) (text : List Char) : Except UsageError State :=
  let (name, value) := match Split.cutFirst? '=' text with
    | some (name, value) => (String.ofList name, some (String.ofList value))
    | none => (String.ofList text, none)
  match longNames.lookup name with
  | none => .error .unknownOption
  | some (.setting setting) => s.giveSetting setting value
  | some (.flag flag) => if value.isSome then .error .unwantedValue else s.giveFlag flag

/-- Reads the letters after one dash. -/
def State.readShort (s : State) : List Char → Except UsageError State
  | [] => .ok s
  | letter :: rest =>
    match shortNames.lookup letter with
    | none => .error .unknownOption
    | some (.flag flag) =>
      match s.giveFlag flag with
      | .error e => .error e
      | .ok s => s.readShort rest
    | some (.setting setting) =>
      match rest with
      | [] => s.giveSetting setting none
      | '=' :: value => s.giveSetting setting (some (String.ofList value))
      | value => s.giveSetting setting (some (String.ofList value))

/-- Takes note of a source. -/
def State.giveSource (s : State) (text : String) : Except UsageError State := do
  match s.pending with
  | .sources texts => return { s with pending := .sources (texts ++ [text]) }
  | _ =>
    let s ← s.settle
    return { s with pending := .sources [text] }

/-- Takes note of an argument that is no option: the value that is waited for, or a source. -/
def State.giveWord (s : State) (text : String) : Except UsageError State :=
  match s.pending with
  | .setting setting none => .ok { s with pending := .setting setting (some text) }
  | _ => s.giveSource text

/-- Reads arguments one after another. -/
def State.readAll (s : State) : List String → Except UsageError State
  | [] => s.settle
  | argument :: rest =>
    match argument.toList with
    | ['-', '-'] => do (← rest.foldlM State.giveSource s).settle
    | '-' :: '-' :: text => do (← s.readLong text).readAll rest
    | ['-'] => do (← s.giveWord argument).readAll rest
    | '-' :: letters => do (← s.readShort letters).readAll rest
    | _ => do (← s.giveWord argument).readAll rest

/-- Checks the arguments as a whole. -/
def State.check (s : State) : Except UsageError Arguments :=
  if s.given.isEmpty && s.arguments.sources.isEmpty then .error .nothingGiven
  else if s.arguments.quiet && decide (0 < s.arguments.verbosity) then .error .conflict
  else if s.arguments.sources.isEmpty && !s.arguments.generateSettings then .error .sourceMissing
  else .ok s.arguments

/-- What the arguments say. -/
def parse (arguments : List String) : Except UsageError Arguments := do
  (← ({} : State).readAll arguments).check

end CommandLine

end SourceJar
