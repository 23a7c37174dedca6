import SourceJar.Tool.Basic
import SourceJar.Tool.Shell.Bucket
import SourceJar.Tool.Shell.Job
import SourceJar.Tool.Shell.Signal
import SourceJar.Tool.Shell.Tree

/-!
The state of a shell: its parameters, functions and descriptors, and the file system.

A descriptor leads to a channel, and several may lead to the same one, so that what is read through one
of them is gone for the others. Commands in a pipeline run one after the other: the second reads what
the first has written.
-/

namespace SourceJar.Tool.Shell

/-- What a descriptor leads to. -/
inductive Channel where
  /-- Bytes to be read; if they are a file, also its size. -/
  | source (left : Bytes) (size : Option Nat)
  /-- Bytes that have been written, the last ones first, with the number of the write. -/
  | sink (pieces : List (Nat × Bytes))
  /-- A file from a place in it on, opened in some way. -/
  | file (place : Place) (offset : Nat) (opening : Opening)
  | device
  /-- Something that gives and takes nothing. -/
  | faulty (fault : StreamFault)

/-- A parameter with a name. -/
structure Parameter where
  value : Option String := none
  exported : Bool := false
  readOnly : Bool := false
  deriving DecidableEq, Repr

/-- Where a shell goes on after a command, if not with the next one. -/
inductive Jump where
  /-- Behind so many loops. -/
  | leave (loops : Nat)
  /-- With the next turn of the last of so many loops. -/
  | again (loops : Nat)
  /-- Behind the function or the file; `given`: with a status of its own. -/
  | finish (given : Bool)
  /-- At the end of the shell. -/
  | exit
  /-- Nowhere: a signal has ended the shell. -/
  | killed (signal : Nat)
  deriving DecidableEq, Repr

/-- Where a program was found that has been looked for. -/
structure Tracked where
  /-- The number of the directory among those for programs. -/
  index : Nat
  /-- Whether the shell has gone to another directory since. -/
  stale : Bool := false
  deriving DecidableEq, Repr

structure State where
  fs : FileSystem
  channels : List Channel
  /-- Which channel a descriptor leads to. -/
  descriptors : List (Nat × Nat)
  /-- How many writes there have been. -/
  clock : Nat := 0
  /-- What commands in the background have written and nobody has waited for, with the channels. -/
  held : List (Nat × Bytes) := []
  /-- Whether something written as output was lost. -/
  outputLost : Bool := false
  /-- The name of the shell or of its script. -/
  name : String
  arguments : List String := []
  parameters : List (String × Parameter) := []
  functions : List (String × Tree) := []
  /-- The texts in place of files, by their numbers, and the first number that is free. -/
  texts : List (Nat × Word) := []
  nextText : Nat := 0
  status : Nat := 0
  /-- The line of the command that is being run. -/
  line : Nat := 0
  /-- The line up to which the script has been read. -/
  readLine : Nat := 0
  /-- The command in whose name complaints are made. -/
  command : Option String := none
  flags : List Char := []
  jump : Option Jump := none
  loops : Nat := 0
  functionDepth : Nat := 0
  /-- What is run at signals; at number zero, what is run at the end. -/
  traps : List (Nat × String) := []
  /-- In a shell within a shell, what the outermost shell runs at signals. -/
  outerTraps : Option (List (Nat × String)) := none
  /-- The signals that have come and for which something is still to be run. -/
  pending : List Nat := []
  /-- The status before what is being run at a signal or at the end. -/
  savedStatus : Option Nat := none
  /-- The numbers of the shell as a process, of the process that started it, and of the next one. -/
  process : Nat := 100
  parent : Nat := 1
  nextProcess : Nat := 101
  /-- The signals that have been sent to other processes. -/
  sent : List (Nat × Nat) := []
  /-- The signal that ended the last program, as long as nothing has been said of it. -/
  fatal : Option Nat := none
  jobs : Jobs := {}
  /-- The last process in the background. -/
  lastProcess : Option Nat := none
  aliases : List (String × String) := []
  /-- The programs that have been looked for. -/
  tracked : List (String × Tracked) := []
  /-- The limits of processes that have been set. -/
  limits : List (Char × Option Nat) := []
  /-- The path by which the shell came to its directory. -/
  directory : String := "/"
  /-- The status of the last commands whose output went into a word. -/
  outputStatus : Option Nat := none
  /-- The permissions that new files do not have. -/
  mask : Nat := 0o22
  /-- The letters of an argument with options that `getopts` has not yet come to. -/
  optionLetters : List Char := []
  /-- The parameters that the functions being run have hidden, the innermost function's first. -/
  hidden : List (List (String × Option Parameter)) := []

namespace State

/-! ## Descriptors -/

def channelOf? (s : State) (descriptor : Nat) : Option Nat := s.descriptors.lookup descriptor

def channel? (s : State) (descriptor : Nat) : Option Channel :=
  (s.channelOf? descriptor).bind fun n => s.channels[n]?

/-- Sets where a descriptor leads. -/
def link (s : State) (descriptor : Nat) (channel : Option Nat) : State :=
  let others := s.descriptors.filter fun (d, _) => d ≠ descriptor
  { s with descriptors := match channel with
      | some n => (descriptor, n) :: others
      | none => others }

/-- A new channel, to which a descriptor leads. -/
def openChannel (s : State) (descriptor : Nat) (c : Channel) : State :=
  { s with channels := s.channels ++ [c] }.link descriptor (some s.channels.length)

/-- Forgets the channels from a number on, if no descriptor leads to them. -/
def forgetFrom (s : State) (n : Nat) : State :=
  if s.descriptors.all fun (_, channel) => channel < n then { s with channels := s.channels.take n } else s

def contentAt (fs : FileSystem) (place : Place) : Bytes :=
  match fs.get? place with
  | some (.file content) => content
  | _ => []

/-- Bytes in place of those from an offset on. -/
def overwrite (content : Bytes) (offset : Nat) (bytes : Bytes) : Bytes :=
  content.take offset ++ List.replicate (offset - content.length) 0 ++ bytes ++
    content.drop (offset + bytes.length)

/-- What is wrong with a descriptor as an output. -/
def outputFault? (s : State) (descriptor : Nat) : Option StreamFault :=
  match s.channel? descriptor with
  | none => some .closed
  | some (.source ..) => some .wrongWay
  | some (.file _ _ opening) => if opening ≠ .read then none else some .wrongWay
  | some (.faulty fault) => some fault
  | some _ => none

/-- What is wrong with a descriptor as an input. -/
def inputFault? (s : State) (descriptor : Nat) : Option StreamFault :=
  match s.channel? descriptor with
  | none => some .closed
  | some (.sink _) => some .wrongWay
  | some (.file place _ opening) =>
    if opening ≠ .read && opening ≠ .both then some .wrongWay
    else if s.fs.get? place = some .directory then some .directory
    else none
  | some (.faulty fault) => some fault
  | some _ => none

/-- Writes to a channel. -/
def writeTo (s : State) (n : Nat) (bytes : Bytes) : State :=
  match s.channels[n]? with
  | some (.sink pieces) =>
    { s with
      channels := s.channels.set n (.sink ((s.clock, bytes) :: pieces))
      clock := s.clock + 1 }
  | some (.file place offset opening) =>
    match s.fs.get? place with
    | some (.file content) =>
      let offset := if opening = .append then content.length else offset
      { s with
        fs := s.fs.put place (.file (overwrite content offset bytes))
        channels := s.channels.set n (.file place (offset + bytes.length) opening) }
    | _ => s
  | _ => s

/-- Writes to a descriptor; one with a fault takes nothing. -/
def write (s : State) (descriptor : Nat) (bytes : Bytes) : State :=
  if bytes.isEmpty then s
  else if (s.outputFault? descriptor).isSome then
    { s with outputLost := s.outputLost || descriptor = 1 }
  else
    match s.channelOf? descriptor with
    | none => s
    | some n => s.writeTo n bytes

/-- Lets out what commands in the background have written. -/
def settle (s : State) : State :=
  s.held.foldl (fun s (n, bytes) => s.writeTo n bytes) { s with held := [] }

/-- Holds back what has been written to the channels since another state. -/
def holdBack (s before : State) : State :=
  let added := s.channels.zipIdx.flatMap fun (channel, n) =>
    match channel, before.channels[n]? with
    | .sink pieces, some (.sink old) =>
      (pieces.take (pieces.length - old.length)).map fun (time, bytes) => (time, n, bytes)
    | _, _ => []
  let inOrder := added.mergeSort fun a b => a.1 ≤ b.1
  let channels := s.channels.zipIdx.map fun (channel, n) =>
    match channel, before.channels[n]? with
    | .sink _, some (.sink old) => .sink old
    | _, _ => channel
  { s with channels, held := s.held ++ inOrder.map (·.2) }

def print (s : State) (text : String) : State := s.write 1 (octets text)

/-- What can be read from a descriptor, and the size of the file that it leads to. -/
def input (s : State) (descriptor : Nat) : Bytes × Option Nat :=
  match s.channel? descriptor with
  | some (.source left size) => (left, size)
  | some (.file place offset opening) =>
    match s.fs.get? place with
    | some (.file content) =>
      (if opening = .read || opening = .both then content.drop offset else [],
        some content.length)
    | _ => ([], none)
  | _ => ([], none)

/-- The place of the file that a descriptor leads to. -/
def placeOf? (s : State) (descriptor : Nat) : Option Place :=
  match s.channel? descriptor with
  | some (.file place _ _) => some place
  | _ => none

/-- Leaves so much to be read from a descriptor. -/
def leaveInput (s : State) (descriptor : Nat) (left : Bytes) : State :=
  match s.channelOf? descriptor with
  | none => s
  | some n =>
    match s.channels[n]? with
    | some (.source _ size) => { s with channels := s.channels.set n (.source left size) }
    | some (.file place offset opening) =>
      let size := (contentAt s.fs place).length
      if size ≤ offset || (opening ≠ .read && opening ≠ .both) then s
      else { s with channels := s.channels.set n (.file place (size - left.length) opening) }
    | _ => s

/-- The writes to a channel, in order and with their numbers. -/
def writesTo (s : State) (channel : Nat) : List (Nat × Bytes) :=
  match s.channels[channel]? with
  | some (.sink pieces) => pieces.reverse
  | _ => []

/-- What has been written to a channel. -/
def written (s : State) (channel : Nat) : Bytes := (s.writesTo channel).flatMap (·.2)

/-! ## Complaints -/

/-- Complains in the name of the shell, and of the command if there is one. -/
def complain (s : State) (message : String) : State :=
  let command := match s.command with
    | some command => command ++ ": "
    | none => ""
  s.write 2 (octets (s.name ++ ": " ++ toString s.line ++ ": " ++ command ++ message ++ "\n"))

/-- Complains and ends the shell. -/
def abort (s : State) (message : String) : State :=
  { s.complain message with status := 2, jump := some .exit }

/-! ## Parameters -/

def parameter? (s : State) (name : String) : Option Parameter := s.parameters.lookup name

def hasFlag (s : State) (flag : Char) : Bool := s.flags.contains flag

/-- The value of a parameter with a name. -/
def value? (s : State) (name : String) : Option String := (s.parameter? name).bind (·.value)

/-- Sets a parameter or takes it away. Programs are looked for anew when their directories change. -/
def setParameter (s : State) (name : String) (p : Option Parameter) : State :=
  let others := s.parameters.filter fun (other, _) => other ≠ name
  { s with
    parameters := match p with
      | some p => (name, p) :: others
      | none => others
    tracked := if name = "PATH" then [] else s.tracked }

/-- Gives a parameter a value; none if it is read-only. -/
def assign? (s : State) (name : String) (value : String) : Option State :=
  let p := (s.parameter? name).getD {}
  if p.readOnly then none
  else some (s.setParameter name
    (some { p with value := some value, exported := p.exported || s.hasFlag 'a' }))

/-- Gives a parameter a value; a read-only one ends the shell. -/
def assign (s : State) (name : String) (value : String) : State :=
  match s.assign? name value with
  | some s => s
  | none => s.abort s!"{name}: is read only"

/-- The characters at which words are split. -/
def separators (s : State) : List Char :=
  match s.parameter? "IFS" with
  | some { value := some text, .. } => text.toList
  | _ => [' ', '\t', '\n']

/-- The letters of the flags that are set. -/
def flagLetters (s : State) : String :=
  String.ofList ("pubaCEVvxsnmiIfe".toList.filter s.flags.contains)

/-- The path of the directory where relative paths start, without links. -/
def realDirectory (s : State) : String := ofOctets (FileSystem.pathOf s.fs.workingDirectory).bytes

/-! ## Signals -/

/-- What the shell as a process runs at a signal. -/
def trapOf? (s : State) (signal : Nat) : Option String :=
  if signal = Signal.kill then none else (s.outerTraps.getD s.traps).lookup signal

/-- Takes in a signal to the shell. -/
def signal (s : State) (n : Nat) : State :=
  match s.trapOf? n with
  | some action => if action = "" || s.pending.contains n then s else { s with pending := n :: s.pending }
  | none => if Signal.isHarmless n then s else { s with jump := some (.killed n) }

/-- Sends a signal to a process; none if there is no such process. -/
def send? (s : State) (process n : Nat) : Option State :=
  if process = s.process then some (if n = 0 then s else s.signal n)
  else if process = s.parent then some (if n = 0 then s else { s with sent := s.sent ++ [(process, n)] })
  else if (s.jobs.ofProcess? process).isSome then some s
  else none

/-- Takes in the signals that a process has sent. -/
def takeSignals (s : State) (sent : List (Nat × Nat)) : State :=
  sent.foldl (fun s (process, n) =>
    if process = s.process then s.signal n else { s with sent := s.sent ++ [(process, n)] }) s

/-- Says which signal has ended a program. -/
def reportFatal (s : State) : State :=
  match s.fatal with
  | none => s
  | some n =>
    let s := { s with fatal := none }
    if Signal.isQuiet n then s else s.write 2 (octets (Signal.text n ++ "\n"))

end State

end SourceJar.Tool.Shell
