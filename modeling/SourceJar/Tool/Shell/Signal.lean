/-!
Signals: their names and numbers, and what they do to a process that takes no care of them.
-/

namespace SourceJar.Tool.Shell

namespace Signal

/-- The names of signals, in the order of their numbers. The first one stands for the end of a shell. -/
def names : List String :=
  ["EXIT", "HUP", "INT", "QUIT", "ILL", "TRAP", "ABRT", "BUS", "FPE", "KILL", "USR1", "SEGV", "USR2",
    "PIPE", "ALRM", "TERM", "16", "CHLD", "CONT", "STOP", "TSTP", "TTIN", "TTOU", "URG", "XCPU",
    "XFSZ", "VTALRM", "PROF", "WINCH", "IO", "PWR", "SYS", "32", "33", "RTMIN"] ++
    (List.range 15).map (fun i => "RTMIN+" ++ toString (i + 1)) ++
    (List.range 14).map (fun i => "RTMAX-" ++ toString (14 - i)) ++ ["RTMAX"]

/-- The number of a signal that is given by its number. -/
def ofNumber? (text : String) : Option Nat :=
  if !text.isEmpty && text.toList.all Char.isDigit then text.toNat?.filter (· < names.length)
  else none

/-- The number of a signal that is given by its number or its name, in large or small letters; names
count from the number `least` on. -/
def find? (least : Nat) (text : String) : Option Nat :=
  let upper := String.ofList (text.toList.map Char.toUpper)
  (ofNumber? text).or ((names.findIdx? (· == upper)).filter (least ≤ ·))

def kill : Nat := 9

def terminate : Nat := 15

/-- Whether a signal does nothing to a process that takes no care of it. -/
def isHarmless (n : Nat) : Bool := [0, 17, 18, 19, 20, 21, 22, 23, 28].contains n

/-- What is said of a process that a signal has ended. -/
def text (n : Nat) : String :=
  let said : List (Nat × String) :=
    [(1, "Hangup"), (2, "Interrupt"), (3, "Quit"), (4, "Illegal instruction"),
      (5, "Trace/breakpoint trap"), (6, "Aborted"), (7, "Bus error"), (8, "Floating point exception"),
      (9, "Killed"), (10, "User defined signal 1"), (11, "Segmentation fault"),
      (12, "User defined signal 2"), (13, "Broken pipe"), (14, "Alarm clock"), (15, "Terminated"),
      (16, "Stack fault"), (24, "CPU time limit exceeded"), (25, "File size limit exceeded"),
      (26, "Virtual timer expired"), (27, "Profiling timer expired"), (29, "I/O possible"),
      (30, "Power failure"), (31, "Bad system call")]
  match said.lookup n with
  | some text => text
  | none => if 34 ≤ n then "Real-time signal " ++ toString (n - 34) else "Unknown signal " ++ toString n

/-- Whether a shell says nothing of a process that a signal has ended. -/
def isQuiet (n : Nat) : Bool := n = 2 || n = 13

end Signal

end SourceJar.Tool.Shell
