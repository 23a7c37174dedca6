import SourceJar.FileSystem.Operations
import SourceJar.Program

/-!
The text tools of a system, as functions.

A tool gets arguments and a context, which holds its input and the file system; it gives a status,
output and complaints, and a context in which less input may be left and files may have changed.

Tools see text as bytes. A text of this part of the library has one character for each byte, with
the byte as its code: `octets` gives the bytes of such a text and `ofOctets` the text of bytes.
-/

namespace SourceJar

namespace Tool

/-- What is wrong with the input or the output that a tool is given. -/
inductive StreamFault where
  | closed
  /-- It leads the other way. -/
  | wrongWay
  /-- It leads to a directory. -/
  | directory
  /-- It leads to a device that takes nothing more. -/
  | full
  deriving DecidableEq, Repr

def StreamFault.errno : StreamFault → Errno
  | .closed => .badDescriptor
  | .wrongWay => .badDescriptor
  | .directory => .isDirectory
  | .full => .noSpace

/-- What a tool reads and changes. -/
structure Context where
  /-- What the tool is called. -/
  name : String
  input : Bytes := []
  inputFault : Option StreamFault := none
  outputFault : Option StreamFault := none
  /-- The size of the file that the input is; in a file, a reader can go back. -/
  inputSize : Option Nat := none
  /-- The places of the files that the input and the output are. -/
  inputPlace : Option Place := none
  outputPlace : Option Place := none
  fs : FileSystem
  /-- The parameters that a program passes on to those it starts. -/
  environment : List (String × String) := []
  /-- The numbers of the tool as a process and of the process that started it. -/
  process : Nat := 100
  parent : Nat := 1

/-- Where a tool writes to. -/
inductive Stream where
  | output
  | errors
  deriving DecidableEq, Repr

/-- How a tool ended, and what it wrote, in order. -/
structure Outcome where
  status : Nat := 0
  writes : List (Stream × Bytes) := []
  /-- The signal that ended it. -/
  endedBy : Option Nat := none
  /-- The signals that it sent to other processes. -/
  sent : List (Nat × Nat) := []
  deriving DecidableEq, Repr

/-- What was written to a stream. -/
def Outcome.written (o : Outcome) (stream : Stream) : Bytes :=
  o.writes.flatMap fun (other, bytes) => if other = stream then bytes else []

/-- The outcome as that of a program. -/
def Outcome.result (o : Outcome) : ProgramResult where
  status := o.status
  output := o.written .output
  errors := o.written .errors

end Tool

/-- A tool: what its arguments come to in a context. -/
abbrev Tool : Type := List String → Tool.Context → Tool.Outcome × Tool.Context

namespace Tool

/-! ## Text of bytes -/

/-- The bytes of a text that has one character for each byte. -/
def octets (text : String) : Bytes := text.toList.map fun c => UInt8.ofNat c.toNat

/-- The text with one character for each byte. -/
def ofOctets (bytes : Bytes) : String := String.ofList (bytes.map fun b => Char.ofNat b.toNat)

/-- Any text as a text of bytes. -/
def ofText (text : String) : String := ofOctets (Utf8.encode text)

/-- The path that a text of bytes spells. -/
def pathOf (name : String) : Path := ⟨octets name⟩

/-- Whether a character is one of those that show on a page, or the blank. -/
def isPrintable (c : Char) : Bool := 0x20 ≤ c.toNat && c.toNat < 0x7F

/-- Whether a character parts words. -/
def isSpace (c : Char) : Bool := c == ' ' || (0x09 ≤ c.toNat && c.toNat ≤ 0x0D)

/-- The value of a digit in a base up to sixteen. -/
def digitIn? (base : Nat) (c : Char) : Option Nat :=
  let value :=
    if c.isDigit then c.toNat - 48
    else if 'a' ≤ c && c ≤ 'f' then c.toNat - 87
    else if 'A' ≤ c && c ≤ 'F' then c.toNat - 55
    else base
  if value < base then some value else none

/-- The number that digits in a base spell. -/
def digitsValue (base : Nat) (digits : List Char) : Nat :=
  digits.foldl (fun n c => n * base + (digitIn? base c).getD 0) 0

/-- A number with at least so many digits. -/
def digitsIn (base width n : Nat) : List Char :=
  let digits := Nat.toDigits base n
  List.replicate (width - digits.length) '0' ++ digits

/-- A decimal number. -/
def number? (text : String) : Option Nat :=
  if !text.isEmpty && text.toList.all Char.isDigit then some (digitsValue 10 text.toList) else none

/-- A text to the right of blanks. -/
def padLeft (width : Nat) (text : String) : String :=
  String.ofList (List.replicate (width - text.length) ' ') ++ text

/-! ## Results -/

/-- Output without complaint. -/
def success (output : Bytes) : Outcome := { writes := [(.output, output)] }

/-- A failure with a complaint. -/
def refusal (message : String) (status : Nat) : Outcome :=
  { status, writes := [(.errors, octets message)] }

/-- A remark that is no failure. -/
def remark (message : String) : Outcome := refusal message 0

/-- One outcome after another; the greater status counts. -/
def both (a b : Outcome) : Outcome :=
  { status := max a.status b.status, writes := a.writes ++ b.writes }

/-- A complaint of a tool. -/
def Context.complaint (c : Context) (message : String) : Outcome :=
  refusal (c.name ++ ": " ++ message ++ "\n") 1

/-- The advice at the end of a complaint about arguments. -/
def Context.advice (c : Context) : String := s!"Try '{c.name} --help' for more information.\n"

/-- A complaint about arguments. -/
def Context.misuse (c : Context) (message : String) : Outcome :=
  refusal (c.name ++ ": " ++ message ++ "\n" ++ c.advice) 1

/-- A tool that leaves input and files alone. -/
def pureTool (f : List String → Context → Outcome) : Tool := fun arguments c =>
  (f arguments c, c)

/-- What is said of a fault. -/
def faultText : IoFault → String
  | .os errno => errno.text
  | fault => fault.message

/-- Whether a place is one for programs. Only files there can be run. -/
def isProgramPlace (place : Place) : Bool :=
  match Split.dropStart? [octets "usr", octets "bin"] place with
  | some [_] => true
  | _ => false

/-! ## Operands -/

/-- The names under which the input can be opened as a file. -/
def inputNames : List String := ["/dev/stdin", "/dev/fd/0", "/proc/self/fd/0"]

/-- Whether an operand is the input. -/
def isInput (name : String) : Bool := name = "-" || inputNames.contains name

/-- Whether the input is a file, in which a reader can go back. -/
def Context.seekable (c : Context) : Bool := c.inputSize.isSome

/-- What an operand stands for: the input, which is used up by it, or a file. -/
def Context.read (c : Context) (name : String) : Except IoFault Bytes × Context :=
  if isInput name then
    match c.inputFault with
    | none => (.ok c.input, { c with input := [] })
    | some fault =>
      (.error (.os (if fault = .closed && name ≠ "-" then .noEntry else fault.errno)), c)
  else (c.fs.readFile (pathOf name), c)

/-- Whether the operands make a tool read an input that is closed. -/
def Context.readsClosed (c : Context) (operands : List String) : Bool :=
  c.inputFault = some .closed && operands.contains "-"

/-- What is left of an outcome if the output takes nothing: a complaint in its place. `fault` is what
is said. -/
def Outcome.withoutOutput (o : Outcome) (complaint : Outcome) : Outcome :=
  let others := o.writes.filter fun (stream, bytes) => stream = .errors || bytes.isEmpty
  if others.length = o.writes.length then o
  else { o with
    status := max o.status complaint.status
    writes := others ++ complaint.writes }

/-- A tool that complains about an output that takes nothing. -/
def guarded (run : Tool) : Tool := fun arguments c =>
  let (r, after) := run arguments c
  match c.outputFault with
  | none => (r, after)
  | some fault => (r.withoutOutput (c.complaint s!"write error: {fault.errno.text}"), after)

/-- What each operand stands for, in order. -/
def Context.readAll (c : Context) : List String → List (String × Except IoFault Bytes) × Context
  | [] => ([], c)
  | name :: rest =>
    let (content, c) := c.read name
    let (others, c) := c.readAll rest
    ((name, content) :: others, c)

/-- The operands, or the input in place of none. -/
def orInput (operands : List String) : List String := if operands.isEmpty then ["-"] else operands

end Tool

end SourceJar
