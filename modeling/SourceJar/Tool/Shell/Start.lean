import SourceJar.Tool.Shell.Run

/-!
Starting a shell: what its arguments ask for, and how its script ends.
-/

namespace SourceJar.Tool.Shell

/-- What the arguments of a shell ask for. -/
structure Invocation where
  flags : List Char := []
  /-- Whether the first operand is a script by itself. -/
  isText : Bool := false
  operands : List String := []

/-- Takes in the letters of an argument; also whether the name of a flag follows. -/
def Invocation.addLetters (on : Bool) : List Char → Invocation → Except String (Invocation × Bool)
  | [], i => .ok (i, false)
  | c :: rest, i => do
    if c = 'c' then addLetters on rest { i with isText := true }
    else if c = 'l' then addLetters on rest i
    else if c = 'o' then return ((← addLetters on rest i).1, true)
    else if (Builtin.flagNames.map (·.2)).contains c then
      let others := i.flags.filter (· ≠ c)
      addLetters on rest { i with flags := if on then c :: others else others }
    else throw ("Illegal option -" ++ String.singleton c)

/-- Reads the arguments of a shell; each is read once, so `fuel` is their number. -/
def Invocation.read : (fuel : Nat) → List String → Invocation → Except String Invocation
  | 0, operands, i => .ok { i with operands }
  | _, [], i => .ok i
  | fuel + 1, word :: rest, i =>
    match word.toList with
    | ['-'] => .ok { i with operands := rest }
    | ['-', '-'] => .ok { i with operands := rest }
    | sign :: letters =>
      if sign ≠ '-' && sign ≠ '+' then .ok { i with operands := word :: rest }
      else do
        let (i, named) ← i.addLetters (sign = '-') letters
        if !named then Invocation.read fuel rest i
        else
          match rest with
          | [] => Invocation.read fuel rest i
          | name :: rest =>
            match Builtin.flagNames.lookup name with
            | some c =>
              let others := i.flags.filter (· ≠ c)
              Invocation.read fuel rest { i with flags := if sign = '-' then c :: others else others }
            | none => throw ("Illegal option " ++ String.singleton sign ++ "o " ++ name)
    | [] => .ok { i with operands := word :: rest }

/-- The parameters that every shell starts with. -/
def initialParameters (c : Context) (directory : String) : List (String × Parameter) :=
  let passed := c.environment.map fun (name, value) =>
    (name, ({ value := some value, exported := true } : Parameter))
  let own : List (String × Parameter) := [
    ("IFS", { value := some " \t\n" }),
    ("OPTIND", { value := some "1" }),
    ("PATH", { value := some standardDirectories }),
    ("PPID", { value := some (toString c.parent) }),
    ("PS1", { value := some "# " }),
    ("PS2", { value := some "> " }),
    ("PS4", { value := some "+ " }),
    ("PWD", { value := some directory, exported := true })]
  let isPassed (name : String) : Bool := name ≠ "IFS" && name ≠ "PWD" && (passed.lookup name).isSome
  (own.filter fun (name, _) => !isPassed name) ++
    passed.filter fun (name, _) => isPassed name || (own.lookup name).isNone

/-- The path by which a shell came to its directory: the one that it has been told, if it leads
there. -/
def initialDirectory (c : Context) (real : String) : String :=
  match c.environment.lookup "PWD" with
  | none => real
  | some told =>
    if told.toList.head? = some '/' &&
        (c.fs.directoryPlace (pathOf told)).toOption = some c.fs.workingDirectory then told
    else real

/-- How deep commands can nest. -/
def maxDepth : Nat := 100000

/-- The state with which a shell starts. -/
def initialState (c : Context) : State :=
  let s : State := {
    fs := c.fs, name := c.name
    channels := [
      match c.inputFault with
        | some fault => .faulty fault
        | none => .source c.input c.inputSize,
      match c.outputFault with
        | some fault => .faulty fault
        | none => .sink [],
      .sink []]
    descriptors :=
      (if c.inputFault = some .closed then [] else [(0, 0)]) ++
        (if c.outputFault = some .closed then [] else [(1, 1)]) ++ [(2, 2)]
    process := c.process, parent := c.parent, nextProcess := c.process + 1 }
  let directory := initialDirectory c s.realDirectory
  { s with directory, parameters := initialParameters c directory }

/-- What is left of the input with which a shell was started. -/
def inputLeft (s : State) : Bytes :=
  match s.channels.head? with
  | some (.source left _) => left
  | _ => []

/-- How a shell ends. -/
def finalResult (c : Context) (s : State) : Outcome × Context :=
  let tagged (stream : Stream) (channel : Nat) : List (Nat × Stream × Bytes) :=
    (s.writesTo channel).map fun (time, bytes) => (time, stream, bytes)
  let writes := List.merge (tagged .output 1) (tagged .errors 2) fun a b => a.1 ≤ b.1
  let endedBy := match s.jump with
    | some (.killed n) => some n
    | _ => none
  let status := match endedBy with
    | some n => 128 + n
    | none => s.status % 256
  ({ status, writes := writes.map (·.2), endedBy, sent := s.sent },
    { c with fs := s.fs, input := inputLeft s })

/-- A shell in a system with given programs. -/
def tool (machine : Machine) : Tool := fun arguments c =>
  let s := initialState c
  let run := evaluate machine maxDepth
  let final (s : State) : Outcome × Context :=
    finalResult c (s.runAtExit (runText run false)).settle
  let script (content : Bytes) (s : State) : Outcome × Context :=
    final (runContent run false content s)
  match Invocation.read arguments.length arguments {} with
  | .error message => finalResult c (s.abort message)
  | .ok i =>
    let s := i.flags.foldr (Builtin.trySetFlag true) s
    match i.isText, i.operands with
    | true, [] => finalResult c (s.abort "-c requires an argument")
    | true, text :: rest =>
      final (runText run false text { s with name := rest.headD c.name, arguments := rest.drop 1 })
    | false, [] => script c.input (Builtin.setFlag true 's' (s.leaveInput 0 []))
    | false, path :: rest =>
      if i.flags.contains 's' then script c.input { s.leaveInput 0 [] with arguments := i.operands }
      else
        match c.fs.readFile (pathOf path) with
        | .ok content => script content { s with name := path, arguments := rest }
        | .error (.os .isDirectory) => script [] { s with name := path, arguments := rest }
        | .error e => finalResult c (s.abort (openFault false path e))

end SourceJar.Tool.Shell
