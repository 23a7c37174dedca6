import SourceJar.Failure
import SourceJar.Json
import SourceJar.Path
import SourceJar.Text.Blank

/-!
What the program prints.

Output comes in three forms: for people, with colours and pictures if it goes to a terminal; as JSON,
one object a line; and as plain text with a keyword in front. A console knows the form, how much is
wanted, and the time that stands in JSON messages. Every function gives what it would write to the
two streams.
-/

namespace SourceJar

/-- The three forms of output. -/
inductive OutputMode where
  | human
  | json
  | plain
  deriving DecidableEq, Repr

namespace OutputMode

def name : OutputMode → String
  | .human => "human"
  | .json => "json"
  | .plain => "plain"

/-- The form of a name, in whatever case; any other name is for people. -/
def ofName (text : String) : OutputMode :=
  if Text.equalIgnoringAsciiCase text "json" then .json
  else if Text.equalIgnoringAsciiCase text "plain" then .plain
  else .human

end OutputMode

/-- What is written to the two streams. -/
structure Printed where
  out : String := ""
  err : String := ""
  deriving DecidableEq, Repr

instance : Append Printed := ⟨fun a b => ⟨a.out ++ b.out, a.err ++ b.err⟩⟩

namespace Printed

/-- A line on the output stream. -/
def line (text : String) : Printed := { out := text ++ "\n" }

/-- A line on the error stream. -/
def errorLine (text : String) : Printed := { err := text ++ "\n" }

/-- One after another. -/
def all (parts : List Printed) : Printed := parts.foldl (· ++ ·) {}

end Printed

/-- What a console is set to. -/
structure Console where
  mode : OutputMode
  colours : Bool
  verbosity : Nat
  quiet : Bool
  /-- The time in messages. -/
  time : String
  deriving DecidableEq, Repr

namespace Console

/-- A console; colours are for people at a terminal who want to see more than errors. -/
def make (mode : OutputMode) (verbosity : Nat) (quiet terminal : Bool) (time : String) : Console :=
  { mode
    colours := mode == .human && terminal && !quiet
    verbosity := if quiet then 0 else verbosity
    quiet
    time }

/-! ## Colours -/

/-- The codes that switch colours and weight. -/
inductive Style where
  | red
  | green
  | yellow
  | cyan
  | bold
  | dim
  deriving DecidableEq, Repr

def Style.code : Style → String
  | .red => "31"
  | .green => "32"
  | .yellow => "33"
  | .cyan => "36"
  | .bold => "1"
  | .dim => "2"

/-- A sequence that switches. -/
def switch (code : String) : String := "\x1b[" ++ code ++ "m"

/-- A text in some styles. -/
def styled (styles : List Style) (text : String) : String :=
  String.join (styles.map fun style => switch style.code) ++ text ++ switch "0"

/-- The pictures in front of lines. -/
inductive Picture where
  | check
  | cross
  | info
  | warning
  | rocket
  | sparkles
  | stop
  deriving DecidableEq, Repr

def Picture.text : Picture → String
  | .check => "✅ "
  | .cross => "❌ "
  | .info => "ℹ️  "
  | .warning => "⚠️  "
  | .rocket => "🚀 "
  | .sparkles => "✨ "
  | .stop => "🛑 "

/-! ## JSON -/

/-- An object on one line. -/
def objectLine (fields : List (String × Json)) : Printed := .line (Json.object fields).compact

/-- A message of a level. -/
def messageLine (c : Console) (level message : String) : Printed :=
  objectLine [("level", .string level), ("message", .string message), ("timestamp", .string c.time),
    ("type", .string "message")]

/-! ## Messages -/

/-- Whether messages of a level are wanted. -/
def wants (c : Console) (level : Nat) : Bool := !c.quiet && decide (level ≤ c.verbosity)

def success (c : Console) (message : String) : Printed :=
  if c.quiet then {}
  else
    match c.mode with
    | .human =>
      if c.colours then .line (Picture.check.text ++ styled [.green, .bold] message)
      else .line ("✓ " ++ message)
    | .json => c.messageLine "success" message
    | .plain => .line ("SUCCESS: " ++ message)

/-- Errors are shown in any case. -/
def error (c : Console) (message : String) : Printed :=
  match c.mode with
  | .human =>
    if c.colours then .errorLine (Picture.cross.text ++ styled [.red, .bold] message)
    else .errorLine ("✗ " ++ message)
  | .json => c.messageLine "error" message
  | .plain => .errorLine ("ERROR: " ++ message)

def warning (c : Console) (message : String) : Printed :=
  if c.wants 0 then
    match c.mode with
    | .human =>
      if c.colours then .line (Picture.warning.text ++ styled [.yellow, .bold] message)
      else .line ("! " ++ message)
    | .json => c.messageLine "warning" message
    | .plain => .line ("WARNING: " ++ message)
  else {}

def info (c : Console) (message : String) : Printed :=
  if c.wants 1 then
    match c.mode with
    | .human =>
      if c.colours then .line (Picture.info.text ++ styled [.cyan] message)
      else .line ("i " ++ message)
    | .json => c.messageLine "info" message
    | .plain => .line ("INFO: " ++ message)
  else {}

def debug (c : Console) (message : String) : Printed :=
  if c.wants 2 then
    match c.mode with
    | .human =>
      if c.colours then .line ("  " ++ styled [.dim] message) else .line ("  DEBUG: " ++ message)
    | .json => c.messageLine "debug" message
    | .plain => .line ("DEBUG: " ++ message)
  else {}

/-- Says that some work begins. -/
def start (c : Console) (operation : String) : Printed :=
  if c.wants 0 then
    match c.mode with
    | .human =>
      if c.colours then .line (Picture.rocket.text ++ styled [.bold] operation)
      else .line ("> " ++ operation)
    | .json => c.messageLine "operation_start" operation
    | .plain => .line ("STARTING: " ++ operation)
  else {}

/-- What could be done about a failure. -/
def suggestion (c : Console) (text : String) : Printed :=
  match c.mode with
  | .human =>
    .errorLine "" ++ .errorLine (
      if c.colours then Picture.info.text ++ styled [.cyan] ("Suggestion: " ++ text)
      else "Suggestion: " ++ text)
  | .json => objectLine [("message", .string text), ("type", .string "suggestion")]
  | .plain => .errorLine ("SUGGESTION: " ++ text)

/-- A failure with the advice that goes with it. -/
def failure (c : Console) (f : Failure) : Printed :=
  c.error f.userMessage ++
    match f.suggestion? with
    | some text => c.suggestion text
    | none => {}

/-! ## Layout -/

def header (c : Console) (title : String) : Printed :=
  if c.quiet then {}
  else
    match c.mode with
    | .human =>
      .line "" ++ .line (
        if c.colours then Picture.sparkles.text ++ " " ++ styled [.cyan, .bold] title
        else "=== " ++ title ++ " ===") ++ .line ""
    | .json => objectLine [("title", .string title), ("type", .string "header")]
    | .plain => .line ("=== " ++ title ++ " ===")

/-- How long a separator is. -/
def separatorWidth : Nat := 60

def separator (c : Console) : Printed :=
  if c.quiet then {}
  else
    let dashes := String.ofList (List.replicate separatorWidth '-')
    match c.mode with
    | .human =>
      if c.colours then
        .line (styled [.dim] (String.ofList (List.replicate separatorWidth '─')))
      else .line dashes
    | .json => {}
    | .plain => .line dashes

/-- The archives of a dry run with their outputs. -/
def plan (c : Console) (archives : List (Path × Path)) : Printed :=
  match c.mode with
  | .json =>
    objectLine
      [("archives", .list (archives.map fun (source, output) =>
          .object [("output", .string output.display), ("source", .string source.display)])),
        ("type", .string "plan")]
  | _ =>
    .all (archives.map fun (source, output) =>
      .line ("  " ++ source.display ++ " -> " ++ output.display))

end Console

end SourceJar
