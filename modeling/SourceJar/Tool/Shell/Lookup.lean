import SourceJar.Tool.Shell.Builtin
import SourceJar.Tool.Shell.Grammar

/-!
Finding commands by their names.

A name stands for a function, a command of the shell or a program. A program is given by a path, or is
looked for in directories; where it was found is kept until the directories change.
-/

namespace SourceJar.Tool.Shell

/-- The programs of a system: what a path leads to, if it leads to one. -/
structure Machine where
  program? : FileSystem → (path : String) → Option Tool

/-- What a name of a command leads to. -/
inductive Found where
  | function (body : Tree)
  | builtin (run : Builtin)
  /-- A command of the shell that runs others. -/
  | runner
  | program (tool : Tool)
  /-- A path to something that is no program. -/
  | denied
  /-- A name that something in the directories has that is no program. -/
  | blocked
  | nothing

/-- The commands of the shell that run others. -/
def runners : List String := [".", "command", "eval", "exec", "hash", "type"]

/-- Where programs are looked for unless the shell is told otherwise. -/
def standardDirectories : String :=
  "/usr/local/sbin:/usr/local/bin:/usr/sbin:/usr/bin:/sbin:/bin"

/-- The path of a name in each of the directories in a row. -/
def pathsIn (directories name : String) : List String :=
  (Split.splitOn ':' directories.toList).map fun directory =>
    if directory.isEmpty then name else String.ofList directory ++ "/" ++ name

/-- The directories in which a shell looks for programs. -/
def State.directories (s : State) : String := (s.value? "PATH").getD ""

/-- Looks for a program in directories: its number among them. -/
def search (machine : Machine) (directories name : String) (fs : FileSystem) :
    Option (Nat × Tool) :=
  (pathsIn directories name).zipIdx.findSome? fun (path, i) =>
    (machine.program? fs path).map (i, ·)

/-- What a path or a name leads to, if it leads to no function and to no command of the shell. -/
def findProgram (machine : Machine) (directories : Option String) (name : String) (s : State) :
    Found × State :=
  if name.toList.contains '/' then
    match machine.program? s.fs name with
    | some tool => (.program tool, s)
    | none => (if s.fs.pathExists (pathOf name) then .denied else .nothing, s)
  else
    let searched := directories.getD s.directories
    match search machine searched name s.fs with
    | some (index, tool) =>
      (.program tool,
        if directories.isSome then s else { s with tracked := setEntry name { index } s.tracked })
    | none =>
      let present := (pathsIn searched name).any fun path => s.fs.pathExists (pathOf path)
      (if present then .blocked else .nothing,
        if directories.isSome then s else { s with tracked := dropEntry name s.tracked })

/-- Looks a command up, with or without functions. -/
def find (machine : Machine) (functions : Bool) (directories : Option String) (name : String)
    (s : State) : Found × State :=
  match if functions then s.functions.lookup name else none with
  | some body => (.function body, s)
  | none =>
    match Builtin.table.lookup name with
    | some run => (.builtin run, s)
    | none =>
      if runners.contains name then (.runner, s) else findProgram machine directories name s

/-- The name of the program or function that a command runs, if it stands there as such. -/
def Tree.plainName? : Tree → Option String
  | .simple _ _ ([.text name false] :: _) _ => if isName name then some (String.ofList name) else none
  | _ => none

/-- Looks a command up before a process is made for it, so that its place is known after it too. -/
def findAhead (machine : Machine) (tree : Tree) (s : State) : State :=
  match tree.plainName? with
  | some name => (find machine true none name s).2
  | none => s

/-- What is wrong with a name that leads to no command. -/
def Found.fault : Found → String
  | .denied => "Permission denied"
  | .blocked => "Permission denied"
  | _ => "not found"

/-- Complains about a command that cannot be run. -/
def notFound (name : String) (found : Found) (s : State) : State :=
  { s.complain (name ++ ": " ++ found.fault) with
    status := match found with
      | .denied => 126
      | _ => 127 }

/-! ## Saying what names stand for -/

/-- What a name of a command stands for, in words or, `brief`, as it would be written. -/
def description (machine : Machine) (brief : Bool) (directories : Option String) (name : String)
    (s : State) : Option String × State :=
  let said (long : String) : Option String := some (if brief then name else long)
  let ofShell : Option String :=
    said (if specialBuiltins.contains name then s!"{name} is a special shell builtin"
      else s!"{name} is a shell builtin")
  if keywords.contains name then (said s!"{name} is a shell keyword", s)
  else
    match s.aliases.lookup name with
    | some text =>
      (some (if brief then "alias " ++ name ++ "=" ++ Builtin.quotedForShell text
        else s!"{name} is an alias for {text}"), s)
    | none =>
      let tracked := if directories.isSome then none else s.tracked.lookup name
      match find machine true directories name s with
      | (.function _, s) => (said s!"{name} is a shell function", s)
      | (.builtin _, s) => (ofShell, s)
      | (.runner, s) => (ofShell, s)
      | (found, after) =>
        if name.toList.contains '/' then
          (if s.fs.pathExists (pathOf name) then said s!"{name} is {name}" else none, s)
        else
          let paths := pathsIn (directories.getD s.directories) name
          match tracked, found with
          | some t, _ =>
            let path := paths.getD t.index name
            (some (if brief then path else s!"{name} is a tracked alias for {path}"), s)
          | none, .program _ =>
            let index := (search machine (directories.getD s.directories) name s.fs).map (·.1)
            let path := paths.getD (index.getD 0) name
            (some (if brief then path else s!"{name} is {path}"), after)
          | none, _ => (none, after)

/-- Says what names of commands stand for. -/
def describe (machine : Machine) (directories : Option String) (names : List String) (s : State) :
    State :=
  names.foldl (fun s name =>
    match description machine false directories name s with
    | (some text, s) => s.print (text ++ "\n")
    | (none, s) => { s.print s!"{name}: not found\n" with status := 127 }) { s with status := 0 }

/-- Shows where programs have been found, or looks for some anew. -/
def track (machine : Machine) (arguments : List String) (s : State) : Except String State := do
  let (letters, names) ← Builtin.letterOptions ['r'] arguments
  if !letters.isEmpty then return { s with tracked := [], status := 0 }
  else if names.isEmpty then
    let lines := (inBuckets 31 s.tracked).map fun (name, t) =>
      (pathsIn s.directories name).getD t.index name ++ (if t.stale then "*\n" else "\n")
    return { s.print (String.join lines) with status := 0 }
  else
    return names.foldl (fun s name =>
      let anew := { s with tracked := dropEntry name s.tracked }
      match find machine true none name anew with
      | (.blocked, s) => { s.complain s!"{name}: Permission denied" with status := 1 }
      | (.nothing, s) =>
        if name.toList.contains '/' then s
        else { s.complain s!"{name}: not found" with status := 1 }
      | (_, s) => s) { s with status := 0 }

end SourceJar.Tool.Shell
