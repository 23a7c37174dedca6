import SourceJar.Archive.Tree
import SourceJar.Program
import SourceJar.Settings.Basic

/-!
External commands that turn a class into source text.

A command line is its words: a program and arguments, without any quoting. A command that works on a
file gets the file's path in place of every mark `{path}` in its arguments, or as one more
argument if there is none. What the program writes is the source text. A program that ends with a
status other than zero refuses the class, and so does one that writes nothing but blanks, unless the
class itself was empty.
-/

namespace SourceJar

/-- A program and its arguments. -/
structure ExternalCommand where
  program : String
  arguments : List String
  deriving DecidableEq, Repr

namespace ExternalCommand

/-- The mark in place of which a file's path goes. -/
def pathMark : String := "\x7bpath\x7d"

/-- The command that a line spells. -/
def parse (line : String) : Except SettingsFault ExternalCommand :=
  match Text.words line with
  | [] => .error .commandEmpty
  | program :: arguments => .ok ⟨program, arguments⟩

/-- Whether an argument has the mark in it. -/
def hasMark (argument : String) : Bool := Split.containsList pathMark.toList argument.toList

/-- An argument with a path in place of every mark. -/
def withPath (path argument : String) : String :=
  String.ofList (Split.replaceAll pathMark.toList path.toList argument.toList)

/-- The arguments for working on a file. -/
def argumentsFor (c : ExternalCommand) (path : String) : List String :=
  let substituted := c.arguments.map (withPath path)
  if c.arguments.any hasMark then substituted else substituted ++ [path]

/-- What the program's end and output say of a unit. -/
def judge (unit : String) (emptyUnit : Bool) (r : ProgramResult) : Except UnitFailure String :=
  if r.status ≠ 0 then
    .error (.refused unit
      s!"decompiler exited with exit status: {r.status}: {Text.trim (Utf8.decodeLossy r.errors)}")
  else
    let text := Utf8.decodeLossy r.output
    if Text.isAllBlank text && !emptyUnit then
      .error (.refused unit "decompiler produced no output")
    else .ok text

/-- Runs the program on a unit. -/
def run (programs : Programs) (c : ExternalCommand) (arguments : List String) (unit : String)
    (input : Bytes) (emptyUnit : Bool) (fs : FileSystem) :
    Except UnitFailure String × FileSystem :=
  let started :=
    if (c.program :: arguments).any fun word => word.toList.contains '\x00' then
      (.error .nulInArgument, fs)
    else programs c.program arguments input fs
  match started with
  | (.error e, fs) => (.error (.backend unit ("failed to start decompiler: " ++ e.message)), fs)
  | (.ok r, fs) => (judge unit emptyUnit r, fs)

end ExternalCommand

end SourceJar
