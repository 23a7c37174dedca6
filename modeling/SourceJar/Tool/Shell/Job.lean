/-!
Jobs: the commands that a shell has run in the background.

Each job has a slot, and the number of the slot is that of the job. A slot is free again once the job
in it has been shown, or has been waited for and another process needs a slot. Commands in the
background are run to their end before the shell goes on, so a job has always ended.
-/

namespace SourceJar.Tool.Shell

/-- A command that was run in the background. -/
structure Job where
  /-- The number of its last process. -/
  process : Nat
  status : Nat
  /-- The signal that ended it. -/
  endedBy : Option Nat
  /-- How many processes it had. -/
  parts : Nat
  awaited : Bool := false
  deriving DecidableEq, Repr

/-- The jobs of a shell. -/
structure Jobs where
  slots : List (Option Job) := []
  /-- The numbers of the slots in use, counted from one, the current job's first. -/
  order : List Nat := []
  deriving DecidableEq, Repr

namespace Jobs

def get? (jobs : Jobs) (number : Nat) : Option Job :=
  if number = 0 then none else (jobs.slots[number - 1]?).join

/-- Frees a slot. -/
def erase (jobs : Jobs) (number : Nat) : Jobs where
  slots := jobs.slots.set (number - 1) none
  order := jobs.order.filter (· ≠ number)

/-- The number of the first slot that is free or can be. -/
def freeNumber (jobs : Jobs) : Nat :=
  1 + ((jobs.slots.findIdx? fun slot => slot.all (·.awaited)).getD jobs.slots.length)

/-- Makes way for a process in the foreground, which has a slot as long as it runs. -/
def makeWay (jobs : Jobs) : Jobs :=
  let number := jobs.freeNumber
  if number ≤ jobs.slots.length then jobs.erase number else jobs

/-- Adds a job, which becomes the current one. -/
def insert (jobs : Jobs) (job : Job) : Jobs :=
  let number := jobs.freeNumber
  let jobs := jobs.makeWay
  { slots := if number ≤ jobs.slots.length then jobs.slots.set (number - 1) (some job)
      else jobs.slots ++ [some job]
    order := number :: jobs.order }

/-- The number of the job with a process. -/
def ofProcess? (jobs : Jobs) (process : Nat) : Option Nat :=
  jobs.order.find? fun number => (jobs.get? number).any (·.process == process)

/-- Notes that a job has been waited for. -/
def await (jobs : Jobs) (number : Nat) : Jobs :=
  let awaited := (jobs.get? number).map fun job => { job with awaited := true }
  { jobs with slots := jobs.slots.set (number - 1) awaited }

/-- The number of the job that a text stands for: a percent sign and what tells the job. -/
def find (jobs : Jobs) (text : String) : Except String Nat :=
  let orFail (number : Option Nat) (message : String) : Except String Nat :=
    match number with
    | some number => .ok number
    | none => .error message
  match text.toList with
  | '%' :: rest =>
    if rest = [] || rest = ['+'] || rest = ['%'] then orFail jobs.order.head? "No current job"
    else if rest = ['-'] then orFail jobs.order[1]? "No previous job"
    else
      let number := if rest.all Char.isDigit then (String.ofList rest).toNat? else none
      orFail (number.filter fun n => (jobs.get? n).isSome) s!"No such job: {text}"
  | _ => .error s!"No such job: {text}"

/-- How a job ended, in words. -/
def endText (job : Job) (signalText : Nat → String) : String :=
  match job.endedBy with
  | some signal => signalText signal
  | none => if job.status = 0 then "Done" else s!"Done({job.status})"

/-- The line that shows a job. -/
def line (jobs : Jobs) (signalText : Nat → String) (number : Nat) (job : Job) : String :=
  let sign := if jobs.order.head? = some number then "+"
    else if jobs.order[1]? = some number then "-" else " "
  let shown := s!"[{number}] {sign} {endText job signalText}"
  shown ++ String.ofList (List.replicate (max 1 (33 - shown.length)) ' ') ++
    String.join (List.replicate (job.parts - 1) " | ") ++ "\n"

/-- Shows jobs in order; one that has been shown is gone. -/
def report (signalText : Nat → String) : (numbers : List Nat) → Jobs → String × Jobs
  | [], jobs => ("", jobs)
  | number :: rest, jobs =>
    match jobs.get? number with
    | none => report signalText rest jobs
    | some job =>
      let (text, after) := report signalText rest (jobs.erase number)
      (jobs.line signalText number job ++ text, after)

end Jobs

end SourceJar.Tool.Shell
