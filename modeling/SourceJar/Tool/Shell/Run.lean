import SourceJar.Tool.Shell.Lookup

/-!
Running shell scripts.

A script is run line by line. The functions here take `evaluate`, which runs one command one level
further down; `evaluate` itself is put together from them at the end. A command that is tested, as the
condition of an `if` is, can fail without ending a shell that is set to end with the first failure.
-/

namespace SourceJar.Tool.Shell

/-- Runs a command; `tested`: its failure is no failure of the script. -/
abbrev Evaluate := (tested : Bool) → Tree → State → State

namespace State

/-! ## Subshells -/

/-- Goes on after a shell of its own: files, channels and signals to the outermost shell are shared,
all else is as before. -/
def afterSubshell (s inner : State) : State :=
  { s with
    fs := { inner.fs with workingDirectory := s.fs.workingDirectory }
    channels := inner.channels.take s.channels.length
    clock := inner.clock
    status := inner.status % 256
    nextText := inner.nextText
    pending := inner.pending
    sent := inner.sent
    jobs := s.jobs.makeWay
    jump := match inner.jump with
      | some (.killed n) => some (.killed n)
      | _ => s.jump }

/-- Whether a signal has ended the shell. -/
def isKilled (s : State) : Bool :=
  match s.jump with
  | some (.killed _) => true
  | _ => false

/-- What has been set for the end runs there, once. -/
def runAtExit (runText : String → State → State) (s : State) : State :=
  match if s.isKilled then none else s.traps.lookup 0 with
  | none => s
  | some action =>
    let after := runText action { s with
      traps := s.traps.filter fun (n, _) => n ≠ 0
      savedStatus := some s.status
      jump := none
      command := none }
    if after.jump = some .exit || after.isKilled then after else { after with status := s.status }

/-- How a shell of its own ends in which something runs. What was to be run at signals is forgotten
there, but signals that were left alone still are. -/
def subshell (runText : String → State → State) (f : State → State) (s : State) : State :=
  State.settle <| runAtExit runText (f { s.settle with
    traps := s.traps.filter fun (n, action) => n ≠ 0 && action = ""
    outerTraps := some (s.outerTraps.getD s.traps)
    jobs := {}
    loops := 0 })

/-- Runs something in a shell of its own. -/
def inSubshell (runText : String → State → State) (f : State → State) (s : State) : State :=
  { s.afterSubshell (subshell runText f s) with held := [] }

/-- Runs something in a shell of its own and takes its output. -/
def outputOf (runText : String → State → State) (f : State → State) (s : State) : Bytes × State :=
  let inner := subshell runText (fun s => f (s.openChannel 1 (.sink []))) s.settle
  (inner.written s.channels.length, { s.afterSubshell inner with held := [] })

end State

/-! ## Redirections -/

/-- The descriptor that a path stands for. -/
def descriptorOf? (path : String) : Option Nat :=
  match [("/dev/stdin", 0), ("/dev/stdout", 1), ("/dev/stderr", 2)].lookup path with
  | some d => some d
  | none =>
    (Split.dropStart? "/dev/fd/".toList path.toList).or
      (Split.dropStart? "/proc/self/fd/".toList path.toList) |>.bind fun digits =>
        number? (String.ofList digits)

/-- What is said of a file that cannot be opened. -/
def openFault (creates : Bool) (path : String) (e : IoFault) : String :=
  let reason := if e = .os .noEntry || e = .os .notDirectory then
      (if creates then "Directory nonexistent" else "No such file")
    else faultText e
  (if creates then "cannot create " else "cannot open ") ++ path ++ ": " ++ reason

/-- Whether a path leads to a link. -/
def isLink (fs : FileSystem) (p : Path) : Bool :=
  match fs.locate false p with
  | .ok (.taken _ (.link _)) => true
  | _ => false

/-- The channel of a file that is opened; opening it may make it or empty it. A shell can be set to
keep the files that are there. -/
def openFile (opening : Opening) (path : String) (s : State) : Except String (Channel × State) :=
  let p := pathOf path
  let creates := opening ≠ .read
  let keeps := opening = .write && s.hasFlag 'C'
  match s.fs.locate true p with
  | .error e => .error (openFault creates path e)
  | .ok (.taken place .device) =>
    .ok (if place = [octets "dev", octets "full"] then .faulty .full else .device, s)
  | .ok (.taken place .directory) =>
    if creates then .error (openFault creates path (.os .isDirectory))
    else .ok (.file place 0 opening, s)
  | .ok (.taken place _) =>
    if keeps then .error (openFault creates path (.os .alreadyExists))
    else
      .ok (.file place 0 opening,
        if opening = .write || opening = .replace then
          { s with fs := s.fs.put place (.file []) } else s)
  | .ok (.free place slash) =>
    if !creates then .error (openFault creates path (.os .noEntry))
    else if keeps && isLink s.fs p then
      .error (openFault creates path (.os .alreadyExists))
    else if slash then .error (openFault creates path (.os .isDirectory))
    else
      .ok (.file place 0 opening, { s with fs := s.fs.put place (.file []) })

/-- Leads a descriptor where another one leads. -/
def copyDescriptor (descriptor source : Nat) (s : State) : Except String State :=
  match s.channelOf? source with
  | some channel => .ok (s.link descriptor (some channel))
  | none => .error s!"{source}: Bad file descriptor"

/-- What a redirection leads to. -/
inductive Target where
  | file (opening : Opening) (path : String)
  | copy (source : Nat)
  | closed
  | text (text : String)

/-- What the word of a redirection comes to. -/
def targetOf (capture : Capture) (r : Redirection) (s : State) : Nat × Target × State :=
  match r with
  | .file descriptor opening word =>
    let (path, s) := expandText capture word s
    (descriptor, .file opening path, s)
  | .copy descriptor word =>
    let (source, s) := expandText capture word s
    if source = "-" then (descriptor, .closed, s)
    else
      match if source.length = 1 then number? source else none with
      | some n => (descriptor, .copy n, s)
      | none =>
        (descriptor, .closed, if s.jump.isSome then s
          else { s with line := s.readLine }.abort "Syntax error: Bad fd number")
  | .here descriptor index =>
    let (marks, s) := expandMarks capture { full := false } ((s.texts.lookup index).getD []) s
    (descriptor, .text (String.ofList (plainText marks)), s)

/-- Makes a redirection. -/
def redirect (descriptor : Nat) (target : Target) (s : State) : Except String State :=
  match target with
  | .closed => .ok (s.link descriptor none)
  | .copy source => copyDescriptor descriptor source s
  | .text text => .ok (s.openChannel descriptor (.source (octets text) none))
  | .file opening path =>
    match descriptorOf? path with
    | some source =>
      match copyDescriptor descriptor source s with
      | .ok s => .ok s
      | .error _ => .error (openFault (opening ≠ .read) path (.os .noEntry))
    | none => do
      let (channel, s) ← openFile opening path s
      return s.openChannel descriptor channel

/-- The descriptor that a redirection changes. -/
def Redirection.descriptor : Redirection → Nat
  | .file descriptor .. => descriptor
  | .copy descriptor _ => descriptor
  | .here descriptor _ => descriptor

/-- Takes redirections back. -/
def restoreDescriptors (before : State) (rs : List Redirection) (s : State) : State :=
  let s := if rs.isEmpty then s else s.settle
  (rs.foldl (fun s r => s.link r.descriptor (before.channelOf? r.descriptor)) s).forgetFrom
    before.channels.length

/-- Makes redirections; the flag says whether all of them could be made. Their words are expanded
first. -/
def redirectAll (capture : Capture) (rs : List Redirection) (s : State) : Bool × State :=
  let (targets, s) := rs.foldl (fun (targets, s) r =>
    if s.jump.isSome then (targets, s)
    else
      let (descriptor, target, s) := targetOf capture r s
      (targets ++ [(descriptor, target)], s)) ([], s)
  if s.jump.isSome then (false, s)
  else
    targets.foldl (fun (fine, s) (descriptor, target) =>
      if !fine then (fine, s)
      else
        match redirect descriptor target s with
        | .ok s => (true, s)
        | .error message => (false, { s.complain message with status := 2 })) (true, s)

/-! ## Scripts -/

/-- Shows what has been read of a script, if the shell is verbose; `count` is the number of characters. -/
def echoScript (r : Reader) (count : Nat) (s : State) : State :=
  if r.shown && s.hasFlag 'v' then
    s.write 2 (octets (String.ofList ((r.rest.drop (r.rest.length - r.scriptLeft)).take count)))
  else s

/-- The number of characters in the first lines of a text. -/
def lengthOfLines : (count : Nat) → List Char → Nat
  | 0, _ => 0
  | _, [] => 0
  | count + 1, c :: rest =>
    1 + (if c = '\n' then lengthOfLines count rest else lengthOfLines (count + 1) rest)

/-- Runs the lines of a script; each step reads a line or more, so `fuel` is their number. `last` is the
status of the last command, which is success if there is none. -/
def runLines (evaluate : Evaluate) (tested : Bool) : (fuel last : Nat) → Reader → State → State
  | 0, _, _, s => s
  | fuel + 1, last, r, s =>
    let r := { r with nextIndex := s.nextText, aliases := s.aliases }
    match r.nextLine with
    | .error e =>
      let s := echoScript r (lengthOfLines (e.line + 1 - r.line) r.rest) s
      { s with line := e.line }.abort e.message
    | .ok (none, after) => { echoScript r (r.scriptLeft - after.scriptLeft) s with status := last }
    | .ok (some trees, after) =>
      let s := echoScript r (r.scriptLeft - after.scriptLeft) s
      let s := { s with
        texts := after.texts ++ s.texts, nextText := after.nextIndex, readLine := after.line }
      let s := trees.foldl (fun s tree => if s.jump.isSome then s else evaluate tested tree s) s
      if s.jump.isSome then s
      else
        runLines evaluate tested fuel (if trees.isEmpty then last else s.status)
          { after with texts := [] } s

/-- How many lines aliases can add to a script. -/
def maxAliasLines : Nat := 100000

/-- Runs a text as a script. -/
def runText (evaluate : Evaluate) (tested : Bool) (text : String) (s : State) : State :=
  { runLines evaluate tested (text.length + 2 + maxAliasLines) 0 { rest := text.toList } s with
    readLine := s.readLine }

/-- Runs the content of a file as a script. -/
def runContent (evaluate : Evaluate) (tested : Bool) (content : Bytes) (s : State) : State :=
  let rest := (ofOctets (content.filter (· ≠ 0))).toList
  { runLines evaluate tested (rest.length + 2 + maxAliasLines) 0 { rest, shown := true } s with
    readLine := s.readLine }

/-- How the output of commands is taken. -/
def captureWith (evaluate : Evaluate) : Capture := fun trees s =>
  let (bytes, after) := s.outputOf (runText evaluate false) fun s =>
    if trees.isEmpty then { s with status := 0 }
    else trees.foldl (fun s tree => if s.jump.isSome then s else evaluate false tree s) s
  (bytes, { after with status := s.status, outputStatus := some after.status })

/-! ## Simple commands -/

/-- Runs a program. -/
def runProgram (tool : Tool) (name : String) (arguments : List String) (s : State) : State :=
  let s := s.settle
  let (input, inputSize) := s.input 0
  let environment := s.parameters.filterMap fun (name, p) =>
    if p.exported then p.value.map (name, ·) else none
  let (r, c) := tool arguments {
    name, input, inputSize, environment
    inputFault := s.inputFault? 0
    outputFault := s.outputFault? 1
    inputPlace := s.placeOf? 0
    outputPlace := s.placeOf? 1
    fs := s.fs
    process := s.nextProcess
    parent := s.process }
  let s := { s with
    fs := { c.fs with workingDirectory := s.fs.workingDirectory }
    nextProcess := s.nextProcess + 1
    jobs := s.jobs.makeWay }.leaveInput 0 c.input
  let s := r.writes.foldl (fun s (stream, bytes) => s.write (if stream = .output then 1 else 2) bytes) s
  { s with status := r.status, fatal := r.endedBy, outputLost := false }.takeSignals r.sent

/-- Complains if output of a command of the shell was lost. -/
def reportLost (name : String) (s : State) : State :=
  if s.outputLost then
    let complained := { s with command := some name, outputLost := false }.complain
      s!"{name}: I/O error"
    { complained with command := s.command, status := s.status ||| 1 }
  else s

/-- Runs a command of the shell. -/
def runBuiltin (name : String) (run : Builtin) (arguments : List String) (s : State) : State :=
  let named := { s with command := some name }
  match run arguments named with
  | .ok after => { reportLost name after with command := s.command }
  | .error message =>
    { named.complain message with
      command := s.command
      status := 2
      jump := if specialBuiltins.contains name then some .exit else s.jump }

/-- Gives back what the innermost function has hidden. -/
def unhide (s : State) : State :=
  match s.hidden with
  | [] => s
  | innermost :: outer =>
    innermost.foldl (fun s (name, p) => s.setParameter name p) { s with hidden := outer }

/-- What is left of a jump behind a function or a file. -/
def behindFinish : Option Jump → Option Jump
  | some (.finish _) => none
  | jump => jump

/-- Calls a function. -/
def callFunction (evaluate : Evaluate) (tested : Bool) (body : Tree) (arguments : List String)
    (s : State) : State :=
  let inner := evaluate tested body
    { s with arguments, loops := 0, functionDepth := s.functionDepth + 1, hidden := [] :: s.hidden }
  let after := unhide inner
  { after with
    arguments := s.arguments
    loops := s.loops
    functionDepth := s.functionDepth
    jump := behindFinish after.jump }

/-- Runs a text in the name of a command. -/
def runIn (evaluate : Evaluate) (tested : Bool) (name text : String) (s : State) : State :=
  { runText evaluate tested text { s with command := some name } with command := s.command }

/-- Runs a file as part of the script. One that is given by a name is looked for in the directories
for programs. -/
def source (evaluate : Evaluate) (tested : Bool) (arguments : List String) (s : State) : State :=
  let fail (message : String) : State :=
    { ({ s with command := some "." } : State).abort message with command := s.command }
  match Builtin.letterOptions [] arguments with
  | .error message => fail message
  | .ok (_, []) => s
  | .ok (_, name :: _) =>
    let found := if name.toList.contains '/' then some name
      else (pathsIn s.directories name).find? fun path => s.fs.isFile (pathOf path)
    match found with
    | none => fail s!"{name}: not found"
    | some path =>
      match s.fs.readFile (pathOf path) with
      | .error e => fail (openFault false path e)
      | .ok content =>
        let after := runContent evaluate tested content { s with command := some path }
        { after with command := s.command, jump := behindFinish after.jump }

mutual

/-- Runs a command that has been found by its name; `fuel` bounds how often `command` and `exec` stand
before one another. -/
def dispatch (machine : Machine) (evaluate : Evaluate) (tested functions : Bool)
    (directories : Option String) : (fuel : Nat) → (name : String) → (arguments : List String) → State → State
  | 0, _, _, s => s
  | fuel + 1, name, arguments, s =>
    match find machine functions directories name s with
    | (.function body, s) => callFunction evaluate tested body arguments s
    | (.builtin run, s) => runBuiltin name run arguments s
    | (.program tool, s) => runProgram tool name arguments s
    | (.runner, s) => reportLost name (runRunner machine evaluate tested fuel name arguments s)
    | (found, s) => notFound name found s

/-- Runs a command of the shell that runs others. -/
def runRunner (machine : Machine) (evaluate : Evaluate) (tested : Bool) :
    (fuel : Nat) → (name : String) → (arguments : List String) → State → State
  | 0, _, _, s => s
  | fuel + 1, name, arguments, s =>
    if name = "." then source evaluate tested arguments s
    else if name = "eval" then
      if arguments.isEmpty then { s with status := 0 }
      else runIn evaluate tested name (" ".intercalate arguments) s
    else if name = "type" then describe machine none arguments s
    else if name = "hash" then runBuiltin name (track machine) arguments s
    else if name = "exec" then
      match if arguments.head? = some "--" then arguments.drop 1 else arguments with
      | [] => { s with status := 0 }
      | program :: rest =>
        match findProgram machine none program s with
        | (.program tool, s) =>
          let after := runProgram tool program rest s
          { after with
            jump := some (match after.fatal with
              | some n => .killed n
              | none => .exit)
            traps := [] }
        | (found, s) =>
          { notFound program found { s with command := some name } with jump := some .exit }
    else
      match Builtin.letterOptions ['p', 'v', 'V'] arguments with
      | .error message =>
        { ({ s with command := some name } : State).complain message with
          command := s.command, status := 2 }
      | .ok (letters, []) => { s with status := if letters.isEmpty then 0 else s.status }
      | .ok (letters, program :: rest) =>
        let directories := if letters.contains 'p' then some standardDirectories else none
        if letters.contains 'V' then describe machine directories [program] s
        else if letters.contains 'v' then
          match description machine true directories program s with
          | (some text, s) => { s.print (text ++ "\n") with status := 0 }
          | (none, s) => { s with status := 127 }
        else
          let after := dispatch machine evaluate tested false directories fuel program rest s
          -- A complaint of a special command does not end the shell here.
          if after.jump = some .exit && after.status = 2 && program ≠ "exit" then
            { after with jump := s.jump } else after

end

/-- Whether assignments before a command last. -/
def keepsAssignments (name : String) (s : State) : Bool :=
  specialBuiltins.contains name && (s.functions.lookup name).isNone

/-- Expands assignments and makes them. -/
def assignWords (capture : Capture) (exported : Bool) (pairs : List (String × Word)) (s : State) :
    List (String × String) × State :=
  pairs.foldl (fun (made, s) (name, word) =>
    if s.jump.isSome then (made, s)
    else
      let (value, s) := expandValue capture word s
      if s.jump.isSome then (made, s)
      else
        let s := s.assign name value
        let s := if exported && s.jump.isNone then
            s.setParameter name ((s.parameter? name).map fun p => { p with exported := true }) else s
        (made ++ [(name, value)], s)) ([], s)

/-- Shows a command before it is run, on the channel for complaints as it was before. -/
def traceCommand (channel : Option Nat) (made : List (String × String)) (words : List String)
    (s : State) : State :=
  if s.hasFlag 'x' then
    let text := " ".intercalate ((made.map fun (name, value) => name ++ "=" ++ value) ++ words)
    let shown := s.link 2 channel
    let lead := (s.value? "PS4").getD ""
    { (shown.write 2 (octets (lead ++ text ++ "\n"))) with descriptors := s.descriptors }
  else s

/-- Sets the parameters back that assignments before a command have changed. -/
def restoreParameters (before : State) (pairs : List (String × Word)) (s : State) : State :=
  pairs.foldl (fun s (name, _) => s.setParameter name (before.parameter? name)) s

/-- Runs a simple command. -/
def runSimple (machine : Machine) (evaluate : Evaluate) (tested : Bool) (line : Nat)
    (pairs : List (String × Word)) (words : List Word) (rs : List Redirection) (s : State) : State :=
  let capture := captureWith evaluate
  let (arguments, s) := expandAll capture words { s with line, outputStatus := none }
  if s.jump.isSome then s
  else
    let before := s
    let (fine, s) := redirectAll capture rs s
    let restore := restoreDescriptors before rs
    let name := arguments.headD ""
    if s.jump.isSome then restore s
    else if !fine then
      restore (if !arguments.isEmpty && keepsAssignments name s then { s with jump := some .exit } else s)
    else
      let (made, s) := assignWords capture (!arguments.isEmpty) pairs s
      if s.jump.isSome then restore s
      else
        let s := traceCommand (before.channelOf? 2) made arguments s
        match arguments with
        | [] => restore { s with status := s.outputStatus.getD 0 }
        | name :: rest =>
          let after := dispatch machine evaluate tested true none 100 name rest s
          let after := if keepsAssignments name s then after
            else restoreParameters before pairs after
          if name = "exec" && rest.isEmpty then after else (restore after).reportFatal

/-! ## Compound commands -/

/-- Goes on with turns as long as a step says so; `fuel` bounds their number. -/
def turns {α : Type} (step : α → Bool × α) : (fuel : Nat) → α → α
  | 0, state => state
  | fuel + 1, state =>
    match step state with
    | (true, state) => turns step fuel state
    | (false, state) => state

/-- What a jump means after the body of a loop: whether the loop goes on, and the jump that is left. -/
def afterBody (s : State) : Bool × State :=
  match s.jump with
  | none => (true, s)
  | some (.leave n) => (false, { s with jump := if n ≤ 1 then none else some (.leave (n - 1)) })
  | some (.again n) =>
    if n ≤ 1 then (true, { s with jump := none }) else (false, { s with jump := some (.again (n - 1)) })
  | some _ => (false, s)

/-- How many turns a loop can have. -/
def maxTurns : Nat := 10000000

def isFinish : Option Jump → Bool
  | some (.finish _) => true
  | _ => false

/-- One turn of a loop with a condition. The status of the loop is that of the last body, which is kept
beside the state because conditions have a status too. -/
def loopTurn (evaluate : Evaluate) (tested sense : Bool) (condition body : Tree) (state : State × Nat) :
    Bool × State × Nat :=
  let s := evaluate true condition state.1
  if s.jump.isSome then
    let (more, after) := afterBody s
    (more, after, if isFinish s.jump then s.status else state.2)
  else if (s.status = 0) = sense then
    let s := evaluate tested body s
    let (more, after) := afterBody s
    (more, after, s.status)
  else (false, s, state.2)

/-- Runs a loop with a condition. -/
def runLoop (evaluate : Evaluate) (tested sense : Bool) (condition body : Tree) (s : State) : State :=
  let (after, status) :=
    turns (loopTurn evaluate tested sense condition body) maxTurns ({ s with loops := s.loops + 1 }, 0)
  { after with
    loops := s.loops
    status := if after.jump = some .exit || after.isKilled then after.status else status }

/-- Runs the body of a loop for each of some values. -/
def runEach (evaluate : Evaluate) (tested : Bool) (name : String) (body : Tree) :
    List String → State → State
  | [], s => s
  | value :: rest, s =>
    let s := s.assign name value
    if s.jump.isSome then s
    else
      match afterBody (evaluate tested body s) with
      | (true, s) => runEach evaluate tested name body rest s
      | (false, s) => s

/-- The branch whose patterns a text matches first. -/
def chooseBranch (capture : Capture) (text : String) :
    List (List Word × Option Tree) → State → Option Tree × State
  | [], s => (none, { s with status := 0 })
  | (patterns, body) :: rest, s =>
    let (found, s) := patterns.foldl (fun (found, s) word =>
      if found || s.jump.isSome then (found, s)
      else
        let (p, s) := expandPattern capture word s
        (p.isMatch text.toList, s)) (false, s)
    if s.jump.isSome then (none, s)
    else if found then (body, if body.isNone then { s with status := 0 } else s)
    else chooseBranch capture text rest s

/-- Runs the commands of a pipeline, each in a shell of its own and with the output of the one before
it as its input. -/
def runPipeline (machine : Machine) (evaluate : Evaluate) : List Tree → State → State
  | [], s => s
  | [last], s =>
    (findAhead machine last s).inSubshell (runText evaluate false) (evaluate false last)
  | first :: rest, s =>
    let (bytes, after) :=
      (findAhead machine first s).outputOf (runText evaluate false) (evaluate false first)
    let inner := runPipeline machine evaluate rest
      { after.openChannel 0 (.source bytes none) with status := s.status }
    { inner with descriptors := s.descriptors }.forgetFrom s.channels.length

/-- Ends a shell that is set to end with the first failure. -/
def checkFailure (tested : Bool) (s : State) : State :=
  if s.hasFlag 'e' && !tested && s.status ≠ 0 && s.jump.isNone then { s with jump := some .exit } else s

/-- Runs a command in the background, which is to its end. What it writes comes to light when the
shell waits, runs another process or ends. -/
def runBackground (evaluate : Evaluate) (tree : Tree) (s : State) : State :=
  let own := { s with held := [] }
  let after := (own.inSubshell (runText evaluate false) fun s =>
    evaluate false tree (s.openChannel 0 .device)).holdBack s
  let parts := match tree with
    | .pipeline trees => trees.length
    | _ => 1
  let job : Job := { process := s.nextProcess, status := after.status, endedBy := none, parts }
  { after with
    status := 0
    held := s.held ++ after.held
    jobs := s.jobs.insert job
    lastProcess := some s.nextProcess
    nextProcess := s.nextProcess + 1 }

/-- Runs what is to be run at the signals that have come, those with smaller numbers first. -/
def runTraps (runText : String → State → State) (s : State) : State :=
  if s.outerTraps.isSome then s
  else
    (s.pending.mergeSort (· ≤ ·)).foldl (fun s n =>
      if s.jump.isSome then s
      else
        let rest := { s with pending := s.pending.filter (· ≠ n) }
        match s.traps.lookup n with
        | none => rest
        | some action =>
          let status := s.savedStatus.getD s.status
          let after := runText action { rest with savedStatus := some status }
          let keeps := match after.jump with
            | some (.finish given) => given
            | some .exit => true
            | some (.killed _) => true
            | _ => false
          { after with
            savedStatus := s.savedStatus
            status := if keeps then after.status else status }) s

/-- Runs a command; `depth` bounds how deep commands nest. -/
def evaluate (machine : Machine) : (depth : Nat) → Evaluate
  | 0, _, _, s => s.abort "Maximum function recursion depth reached"
  | depth + 1, tested, tree, s =>
    let inner := evaluate machine depth
    let capture := captureWith inner
    if s.hasFlag 'n' then s
    else
      runTraps (runText inner false) <| match tree with
      | .simple line pairs words rs =>
        checkFailure tested (runSimple machine inner tested line pairs words rs s)
      | .pipeline trees => checkFailure tested (runPipeline machine inner trees s)
      | .background tree => runBackground inner tree s
      | .redirected line tree rs =>
        let (fine, redirected) := redirectAll capture rs { s with line }
        restoreDescriptors s rs
          (if redirected.jump.isSome || !fine then redirected else inner tested tree redirected)
      | .subshell line tree rs =>
        let (fine, redirected) := redirectAll capture rs { s with line }
        let after := if redirected.jump.isSome || !fine then redirected
          else redirected.inSubshell (runText inner false) (inner tested tree)
        checkFailure tested (restoreDescriptors s rs after)
      | .negated tree =>
        let s := inner true tree s
        if s.jump.isSome then s else { s with status := if s.status = 0 then 1 else 0 }
      | .both first second =>
        let s := inner true first s
        if s.jump.isSome || s.status ≠ 0 then s else inner tested second s
      | .either first second =>
        let s := inner true first s
        if s.jump.isSome || s.status = 0 then s else inner tested second s
      | .sequence trees =>
        trees.foldl (fun s tree => if s.jump.isSome then s else inner tested tree s) s
      | .choice condition yes no =>
        let s := inner true condition s
        if s.jump.isSome then s
        else if s.status = 0 then inner tested yes s
        else
          match no with
          | some tree => inner tested tree s
          | none => { s with status := 0 }
      | .loop sense condition body => runLoop inner tested sense condition body s
      | .each line name words body =>
        let s := { s with line }
        let (values, s) := match words with
          | some words => expandAll capture words s
          | none => (s.arguments, s)
        if s.jump.isSome then s
        else
          let loops := s.loops
          let after := runEach inner tested name body values { s with loops := loops + 1, status := 0 }
          { after with loops }
      | .select line subject branches =>
        let (text, s) := expandText capture subject { s with line }
        if s.jump.isSome then s
        else
          match chooseBranch capture text branches s with
          | (some body, s) => inner tested body s
          | (none, s) => s
      | .definition name body =>
        let others := s.functions.filter fun (other, _) => other ≠ name
        { s with functions := (name, body) :: others, status := 0 }

end SourceJar.Tool.Shell
