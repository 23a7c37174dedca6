import SourceJar.Tool.Shell.Expansion

/-!
The commands of the shell for its flags, its arguments and its parameters, and those that leave a row
of commands.

A command gives the state after it, or a complaint, which ends the shell if the command is one of the
special ones.
-/

namespace SourceJar.Tool.Shell

/-- A command of the shell. -/
abbrev Builtin := List String → State → Except String State

namespace Builtin

def done (status : Nat) (s : State) : Except String State := .ok { s with status }

/-- A number among the arguments. -/
def numberOf (text : String) : Except String Nat :=
  match number? text with
  | some n => if n ≤ 0x7FFFFFFF then .ok n else .error s!"Illegal number: {text}"
  | none => .error s!"Illegal number: {text}"

/-- Letters of options at the start of arguments, of those that are allowed; also the operands. -/
def letterOptions (allowed : List Char) : List String → Except String (List Char × List String)
  | [] => .ok ([], [])
  | word :: rest =>
    match word.toList with
    | ['-', '-'] => .ok ([], rest)
    | '-' :: c :: letters =>
      match (c :: letters).find? fun c => !allowed.contains c with
      | some bad => .error ("Illegal option -" ++ String.singleton bad)
      | none => do
        let (more, operands) ← letterOptions allowed rest
        return (c :: letters ++ more, operands)
    | _ => .ok ([], word :: rest)

/-! ## Going elsewhere -/

/-- Ends the shell. Without a status of its own, what is run at a signal keeps the one before it. -/
def exit : Builtin := fun arguments s => do
  let status ← match arguments with
    | [] => pure (s.savedStatus.getD s.status)
    | text :: _ => numberOf text
  return { s with status, jump := some .exit }

def finish : Builtin := fun arguments s => do
  let status ← match arguments with
    | [] => pure s.status
    | text :: _ => numberOf text
  return { s with status, jump := some (.finish (!arguments.isEmpty)) }

/-- Leaves loops or starts their next turn. -/
def skip (jump : Nat → Jump) : Builtin := fun arguments s => do
  let n ← match arguments with
    | [] => pure 1
    | text :: _ => numberOf text
  if n = 0 then throw "Illegal number: 0"
  else if s.loops = 0 then done 0 s
  else return { s with status := 0, jump := some (jump (min n s.loops)) }

/-! ## Arguments and flags -/

def shift : Builtin := fun arguments s => do
  let n ← match arguments with
    | [] => pure 1
    | text :: _ => numberOf text
  if s.arguments.length < n then throw "can't shift that many"
  else return { s with arguments := s.arguments.drop n, status := 0 }

/-- The names of flags, with their letters, in the order in which they are shown. -/
def flagNames : List (String × Char) :=
  [("errexit", 'e'), ("noglob", 'f'), ("ignoreeof", 'I'), ("interactive", 'i'), ("monitor", 'm'),
    ("noexec", 'n'), ("stdin", 's'), ("xtrace", 'x'), ("verbose", 'v'), ("vi", 'V'), ("emacs", 'E'),
    ("noclobber", 'C'), ("allexport", 'a'), ("notify", 'b'), ("nounset", 'u'), ("privileged", 'p'),
    ("nolog", '\x00'), ("debug", '\x01')]

def setFlag (value : Bool) (flag : Char) (s : State) : State :=
  let others := s.flags.filter (· ≠ flag)
  { s with flags := if value then flag :: others else others }

/-- Sets a flag, unless it needs a terminal. -/
def trySetFlag (value : Bool) (flag : Char) (s : State) : State :=
  if value && flag = 'm' then s.complain "can't access tty; job control turned off"
  else setFlag value flag s

/-- Sets the flags of letters. -/
def setFlags (value : Bool) (letters : List Char) (s : State) : Except String State :=
  letters.foldlM (fun s c =>
    if (flagNames.map (·.2)).contains c then .ok (trySetFlag value c s)
    else .error ("Illegal option -" ++ String.singleton c)) s

/-- The flags, as they are shown or as commands. -/
def showFlags (asCommands : Bool) (s : State) : String :=
  String.join (flagNames.map fun (name, c) =>
    let on := s.hasFlag c
    if asCommands then (if on then "set -o " else "set +o ") ++ name ++ "\n"
    else name ++ String.ofList (List.replicate (16 - name.length) ' ') ++ (if on then "on" else "off") ++
      "\n")

/-- Reads flags among arguments: the state with them, and the other arguments if there is an end to
the flags or an argument that is none. -/
def readFlags : List String → State → Except String (State × Option (List String))
  | [], s => .ok (s, none)
  | word :: rest, s =>
    match word.toList with
    | ['-', '-'] => .ok (s, some rest)
    | ['-'] =>
      .ok (setFlag false 'x' (setFlag false 'v' s), if rest.isEmpty then none else some rest)
    | sign :: letters =>
      if sign ≠ '-' && sign ≠ '+' then .ok (s, some (word :: rest))
      else do
        let s ← setFlags (sign = '-') (letters.filter (· ≠ 'o')) s
        if letters.contains 'o' then
          match rest with
          | [] =>
            let shown := if sign = '-' then "Current option settings\n" ++ showFlags false s
              else showFlags true s
            return (s.print shown, none)
          | name :: rest =>
            match flagNames.lookup name with
            | some c => readFlags rest (trySetFlag (sign = '-') c s)
            | none => throw ("Illegal option " ++ String.singleton sign ++ "o " ++ name)
        else readFlags rest s
    | [] => .ok (s, some (word :: rest))

/-- A value in quotes that a shell undoes. -/
def quotedForShell (value : String) : String :=
  let pieces := (Split.splitOn '\'' value.toList).map fun piece => "'" ++ String.ofList piece ++ "'"
  "\"'\"".intercalate pieces

/-- The parameters, in the order of their names. -/
def sortedParameters (s : State) : List (String × Parameter) :=
  s.parameters.mergeSort fun a b => !(b.1 < a.1)

def set : Builtin := fun arguments s => do
  if arguments.isEmpty then
    let lines := (sortedParameters s).filterMap fun (name, p) =>
      p.value.map fun value => name ++ "=" ++ quotedForShell value ++ "\n"
    done 0 (s.print (String.join lines))
  else
    let (s, operands) ← readFlags arguments s
    return { s with arguments := operands.getD s.arguments, status := 0 }

/-! ## Parameters -/

/-- The name and the value in an argument. -/
def pairOf (argument : String) : Except String (String × Option String) :=
  let (name, value) := match Split.cutFirst? '=' argument.toList with
    | some (name, value) => (name, some (String.ofList value))
    | none => (argument.toList, none)
  if isName name then .ok (String.ofList name, value)
  else .error (String.ofList name ++ ": bad variable name")

/-- A name without what follows an equals sign in it. -/
def bareName (word : String) : String := String.ofList (word.toList.takeWhile (· ≠ '='))

/-- Gives a parameter a value, unless it is read-only. -/
def assign (name value : String) (s : State) : Except String State :=
  match s.assign? (bareName name) value with
  | some s => .ok s
  | none => .error s!"{name}: is read only"

/-- Gives parameters a property, or shows those that have it. -/
def declare (word : String) (has : Parameter → Bool) (give : Parameter → Parameter) : Builtin :=
    fun arguments s => do
  let (_, operands) ← letterOptions ['p'] arguments
  if operands.isEmpty then
    let lines := (sortedParameters s).filterMap fun (name, p) =>
      if has p then
        some (word ++ " " ++ name ++ ((p.value.map fun v => "=" ++ quotedForShell v).getD "") ++ "\n")
      else none
    done 0 (s.print (String.join lines))
  else
    let s ← operands.foldlM (fun s argument => do
      let (name, value) ← pairOf argument
      let s ← match value with
        | some value => assign name value s
        | none => pure s
      return s.setParameter name (some (give ((s.parameter? name).getD {})))) s
    done 0 s

def share : Builtin := declare "export" (·.exported) fun p => { p with exported := true }

def readonly : Builtin := declare "readonly" (·.readOnly) fun p => { p with readOnly := true }

def hide : Builtin := fun arguments s => do
  match s.hidden with
  | [] => throw "not in a function"
  | innermost :: outer =>
    let s ← arguments.foldlM (fun (s : State) argument => do
      let (name, value) ← pairOf argument
      let innermost := s.hidden.headD innermost
      let s :=
        if (innermost.lookup name).isSome then s
        else { s with hidden := ((name, s.parameter? name) :: innermost) :: outer }
      match value with
      | some value => assign name value s
      | none => return s) s
    done 0 s

def unset : Builtin := fun arguments s => do
  let (letters, operands) ← letterOptions ['f', 'v'] arguments
  let s ← operands.foldlM (fun (s : State) name => do
    if letters.contains 'f' then
      return { s with functions := s.functions.filter fun (other, _) => other ≠ name }
    else if !isName (bareName name).toList then throw s!"{name}: bad variable name"
    else if (s.parameter? (bareName name)).any (·.readOnly) then throw s!"{name}: is read only"
    else return s.setParameter (bareName name) none) s
  done 0 s

end Builtin

end SourceJar.Tool.Shell
