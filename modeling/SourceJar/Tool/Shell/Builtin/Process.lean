import SourceJar.Tool.Shell.Builtin.Basic

/-!
The commands of the shell for signals and jobs.
-/

namespace SourceJar.Tool.Shell

namespace Builtin

/-! ## Signals -/

/-- Sets what is run at signals, up to the first name that is no signal's. -/
def setTraps (action : Option String) : List String → State → State
  | [], s => { s with status := 0 }
  | name :: rest, s =>
    match Signal.find? 0 name with
    | none => { s.write 2 (octets s!"trap: {name}: bad trap\n") with status := 1 }
    | some n =>
      let others := s.traps.filter fun (other, _) => other ≠ n
      setTraps action rest { s with traps := match action with
        | some action => (n, action) :: others
        | none => others }

/-- Shows what is run at signals. -/
def trapLines (s : State) : String :=
  String.join (Signal.names.zipIdx.filterMap fun (name, n) =>
    (s.traps.lookup n).map fun action => s!"trap -- {quotedForShell action} {name}\n")

def trap : Builtin := fun arguments s => do
  let (_, operands) ← letterOptions [] arguments
  match operands with
  | [] => done 0 (s.print (trapLines s))
  | first :: rest =>
    if rest.isEmpty || (Signal.ofNumber? first).isSome then return setTraps none operands s
    else return setTraps (if first = "-" then none else some first) rest s

def killUsage : String :=
  "Usage: kill [-s sigspec | -signum | -sigspec] [pid | job]... or\nkill -l [exitstatus]"

/-- What is asked of `kill`: the names of signals, or a signal for processes. -/
inductive KillRequest where
  | names
  | signal (n : Nat)

/-- Reads the options of `kill`; each argument is read once, so `fuel` is their number. -/
def killOptions : (fuel : Nat) → (request : Option KillRequest) → List String →
    Except String (Option KillRequest × List String)
  | 0, request, operands => .ok (request, operands)
  | _, request, [] => .ok (request, [])
  | fuel + 1, request, word :: rest =>
    match word.toList with
    | ['-', '-'] => .ok (request, rest)
    | ['-', 'l'] => killOptions fuel (some .names) rest
    | '-' :: 's' :: letters => do
      let (name, rest) ← match letters, rest with
        | [], [] => throw "No arg for -s option"
        | [], name :: rest => pure (name, rest)
        | _, rest => pure (String.ofList letters, rest)
      match Signal.find? 1 name with
      | none => throw s!"invalid signal number or name: {name}"
      | some n => killOptions fuel (some (.signal n)) rest
    | '-' :: 'l' :: letters => do
      killOptions fuel (some .names) (String.ofList ('-' :: letters) :: rest)
    | '-' :: c :: _ => throw ("Illegal option -" ++ String.singleton c)
    | _ => .ok (request, word :: rest)

/-- Sends a signal to the process or the job that a text stands for. -/
def sendTo (n : Nat) (text : String) (s : State) : Except String State := do
  let process ← match text.toList with
    | '%' :: _ =>
      let number ← s.jobs.find text
      pure (((s.jobs.get? number).map (·.process)).getD 0)
    | '-' :: digits => numberOf (String.ofList digits)
    | _ => numberOf text
  match s.send? process n with
  | some s => return s
  | none => return { s.complain "No such process\n" with status := 1 }

def kill : Builtin := fun arguments s => do
  let asSignal := match arguments with
    | first :: _ =>
      match first.toList with
      | '-' :: name => Signal.find? 1 (String.ofList name)
      | _ => none
    | [] => none
  let (request, operands) ← match asSignal with
    | some n => pure (some (.signal n), arguments.drop 1)
    | none => killOptions (2 * arguments.length + (String.join arguments).length) none arguments
  match request, operands with
  | some .names, [] =>
    done 0 (s.print ("0\n" ++ String.join ((Signal.names.drop 1).map (· ++ "\n"))))
  | some .names, text :: _ =>
    let given ← numberOf text
    let n := if 128 < given then given - 128 else given
    match if n = 0 then none else Signal.names[n]? with
    | some name => done 0 (s.print (name ++ "\n"))
    | none => throw s!"invalid signal number or exit status: {text}"
  | _, [] => throw killUsage
  | request, operands =>
    let n := match request with
      | some (.signal n) => n
      | _ => Signal.terminate
    operands.foldlM (fun s text => sendTo n text s) { s with status := 0 }

/-! ## Jobs -/

def jobs : Builtin := fun arguments s => do
  let (letters, operands) ← letterOptions ['l', 'p'] arguments
  let numbers ← if operands.isEmpty then pure s.jobs.order else operands.mapM s.jobs.find
  if letters.getLast? = some 'p' then
    let lines := numbers.filterMap fun number =>
      (s.jobs.get? number).map fun job => toString job.process ++ "\n"
    done 0 (s.print (String.join lines))
  else
    let (text, jobs) := Jobs.report Signal.text numbers s.jobs
    done 0 ({ s with jobs }.print text)

/-- Brings a job to the foreground or the background, which takes a terminal. -/
def moveJob : Builtin := fun arguments s => do
  let (_, operands) ← letterOptions [] arguments
  let name := operands.headD "%%"
  let _ ← s.jobs.find name
  throw s!"job {name} not created under job control"

/-- Waits for jobs, which have always ended. -/
def wait : Builtin := fun arguments s => do
  let (_, operands) ← letterOptions [] arguments
  let s := s.settle
  if operands.isEmpty then
    done 0 { s with jobs := s.jobs.order.foldl Jobs.await s.jobs }
  else
    operands.foldlM (fun s word => do
      let number ← if word.toList.head? = some '%' then (s.jobs.find word).map some
        else (numberOf word).map s.jobs.ofProcess?
      match number.bind fun n => (s.jobs.get? n).map fun job => (n, job) with
      | some (n, job) => return { s with jobs := s.jobs.await n, status := job.status }
      | none => return s) { s with status := 127 }

end Builtin

end SourceJar.Tool.Shell
