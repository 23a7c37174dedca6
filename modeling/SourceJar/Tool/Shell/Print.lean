import SourceJar.Tool.Echo
import SourceJar.Tool.Format

/-!
The `printf` that is part of the shell.

It knows fewer escapes and directives than the tool of that name and has its own complaints, and its
numbers have double precision. A directive that it does not know ends it.
-/

namespace SourceJar.Tool.Shell.Print

open Format (Layout Directive Measure)

/-- What is left to be written from, and what has been written. -/
structure State where
  arguments : List String
  output : List (List Char) := []
  complaints : List String := []
  status : Nat := 0
  /-- Whether nothing more is written. -/
  ended : Bool := false

def State.write (s : State) (text : List Char) : State := { s with output := text :: s.output }

def State.complain (s : State) (message : String) : State :=
  { s with complaints := message :: s.complaints, status := 1 }

def State.abort (s : State) (message : String) : State :=
  { s.complain message with status := 2, ended := true }

/-- Takes the next argument; one that is missing counts as empty. -/
def State.next (s : State) : String × State :=
  (s.arguments.headD "", { s with arguments := s.arguments.drop 1 })

/-- The character that an argument after a quote stands for. -/
def characterOf? (text : List Char) : Option Nat :=
  match text with
  | q :: rest => if q = '"' || q = '\'' then some ((rest.head?.getD '\x00').toNat) else none
  | [] => none

/-- Notes what is wrong with an argument as a number. -/
def State.checkNumber (s : State) (text : String) (rest : List Char) (outOfRange : Bool) : State :=
  if !rest.isEmpty then
    s.complain (if rest.length = text.length then s!"{text}: expected numeric value"
      else s!"{text}: not completely converted")
  else if outOfRange then s.complain s!"{text}: Numerical result out of range"
  else s

/-- Takes the next argument as a whole number. -/
def State.integer (s : State) (signed : Bool) : Int × State :=
  let (text, s) := s.next
  match characterOf? text.toList with
  | some n => (n, s)
  | none =>
    let r := Format.readInteger signed text.toList
    (r.value, s.checkNumber text r.rest r.outOfRange)

/-- Takes the next argument as a number that need not be whole. -/
def State.floating (s : State) : Floating.Number × State :=
  let (text, s) := s.next
  match characterOf? text.toList with
  | some n => (⟨false, .finite n 1⟩, s)
  | none =>
    let r := Floating.read Floating.double text.toList
    (r.number, s.checkNumber text r.rest r.outOfRange)

/-- The layout of a directive. -/
def State.layout (s : State) (d : Directive) : Layout × State :=
  let (l, s) := match d.width with
    | .absent => (Layout.ofFlags d.flags, s)
    | .given n => ({ Layout.ofFlags d.flags with width := n }, s)
    | .argument =>
      let (n, s) := s.integer true
      ((Layout.ofFlags d.flags).withWidth n, s)
  match d.precision with
  | .absent => (l, s)
  | .given n => ({ l with precision := some n }, s)
  | .argument =>
    let (n, s) := s.integer true
    ({ l with precision := if n < 0 then none else some n.toNat }, s)

/-- Writes an argument as a directive says. -/
def State.convert (s : State) (d : Directive) : State :=
  let (l, s) := s.layout d
  let letter := d.letter
  if letter = 's' then
    let (text, s) := s.next
    s.write (l.text text.toList)
  else if letter = 'b' then
    let (text, s) := s.next
    let (written, ended) := Escape.undo Echo.shellEscape? text.length text.toList
    { s.write (l.text written) with ended }
  else if letter = 'c' then
    let (text, s) := s.next
    s.write (l.text [text.toList.head?.getD '\x00'])
  else if letter = 'd' || letter = 'i' then
    let (n, s) := s.integer true
    s.write (l.signed n)
  else if "ouxX".toList.contains letter then
    let (n, s) := s.integer false
    s.write (l.unsigned letter n.toNat)
  else if "aAeEfFgG".toList.contains letter then
    let (n, s) := s.floating
    s.write (l.floating Floating.double letter n)
  else s.abort (String.ofList d.written ++ ": invalid directive")

/-- Reads an escape of a format after its backslash. -/
def escape? (text : List Char) : Option (Char × List Char) :=
  match text with
  | [] => none
  | c :: rest => (Escape.octal? text).or ((Escape.control? c).map (·, rest))

/-- Writes a format once. -/
def formatOnce : (fuel : Nat) → List Char → State → State
  | 0, _, s => s
  | _, [], s => s
  | fuel + 1, '\\' :: rest, s =>
    let (c, rest) := (escape? rest).getD ('\\', rest)
    formatOnce fuel rest (s.write [c])
  | fuel + 1, '%' :: '%' :: rest, s => formatOnce fuel rest (s.write ['%'])
  | fuel + 1, '%' :: rest, s =>
    let (letter, d, rest) := Format.directive "#-+ 0".toList [] rest
    let s := if letter.isNone then s.abort "missing format character" else s.convert d
    if s.ended then s else formatOnce fuel rest s
  | fuel + 1, c :: rest, s => formatOnce fuel rest (s.write [c])

/-- Writes a format again while arguments are left and some are used. -/
def formatAll (format : List Char) : (fuel : Nat) → State → State
  | 0, s => s
  | fuel + 1, s =>
    let after := formatOnce (format.length + 1) format s
    if after.ended || after.arguments.isEmpty || after.arguments.length = s.arguments.length then after
    else formatAll format fuel after

/-- What the shell's own `printf` writes, its complaints and its status. -/
def run (arguments : List String) : State :=
  let operands : Except String (List String) := match arguments with
    | [] => .ok []
    | first :: rest =>
      match first.toList with
      | ['-', '-'] => .ok rest
      | '-' :: c :: _ => .error ("Illegal option -" ++ String.singleton c)
      | _ => .ok arguments
  match operands with
  | .error message => ({ arguments := [] } : State).abort message
  | .ok [] => ({ arguments := [] } : State).abort "usage: printf format [arg ...]"
  | .ok (format :: rest) => formatAll format.toList (rest.length + 1) { arguments := rest }

end SourceJar.Tool.Shell.Print
