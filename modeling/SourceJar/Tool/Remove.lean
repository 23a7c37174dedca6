import SourceJar.Tool.Options

/-!
`rm`: removes files, and directories with all that is in them.
-/

namespace SourceJar.Tool.Remove

/-- When a removal is asked about first. -/
inductive Asking where
  | never
  /-- Once, if there is much to remove. -/
  | once
  | each
  deriving DecidableEq

/-- How things are removed. -/
structure Request where
  force : Bool := false
  asking : Asking := .never
  recursive : Bool := false
  directories : Bool := false
  verbose : Bool := false

/-- The long name that lifts the guard of the root directory. -/
def unguarded : String := "no-preserve-root"

/-- That name cut short, which is not accepted. -/
def abbreviations : List (String × String × Value) :=
  (List.range (unguarded.length - 1)).map fun n =>
    (String.ofList (unguarded.toList.take (n + 1)), "abbreviated", .optional)

def options : Options where
  letters := "dfiIrRv".toList.map fun c => (c, .none)
  names := [("force", "f", .none), ("interactive", "interactive", .optional),
    ("one-file-system", "one-file-system", .none), (unguarded, unguarded, .none),
    ("preserve-root", "preserve-root", .optional), ("recursive", "r", .none), ("dir", "d", .none),
    ("verbose", "v", .none)] ++ Options.common ++ abbreviations

/-- The texts for when a removal is asked about. -/
def askings : List (String × Asking) :=
  [("never", .never), ("no", .never), ("none", .never), ("once", .once), ("always", .each),
    ("yes", .each)]

/-- Takes in one option. -/
def step (c : Context) (r : Request) (key : String) (value : Option String) :
    Except Outcome Request :=
  if key = "f" then .ok { r with force := true, asking := .never }
  else if key = "i" then .ok { r with force := false, asking := .each }
  else if key = "I" then .ok { r with force := false, asking := .once }
  else if key = "r" || key = "R" then .ok { r with recursive := true }
  else if key = "d" then .ok { r with directories := true }
  else if key = "v" then .ok { r with verbose := true }
  else if key = "interactive" then
    (meaningOf c key askings (value.getD "always")).map fun asking =>
      { r with asking, force := r.force && asking = .never }
  else if key = "abbreviated" then
    .error (c.complaint s!"you may not abbreviate the --{unguarded} option")
  else if key = "preserve-root" && value.any (· ≠ "all") then
    .error (c.complaint ("unrecognized --preserve-root argument: " ++ inShellQuotes (value.getD "")))
  else .ok r

/-- Reads an answer off the input: a line that starts with a letter for yes. -/
def answer (c : Context) : Bool × Context :=
  let line := c.input.takeWhile (· ≠ 0x0A)
  (line.head? == some 0x79 || line.head? == some 0x59,
    { c with input := c.input.drop (line.length + 1) })

/-- Asks a question. -/
def ask (c : Context) (question : String) : Bool × Outcome × Context :=
  let (yes, after) := answer c
  (yes, remark s!"{c.name}: {question}? ", after)

/-- What a thing is called in a question. -/
def kindName : Inode → String
  | .file [] => "regular empty file"
  | .file _ => "regular file"
  | .directory => "directory"
  | .link _ => "symbolic link"
  | .device => "character special file"

/-- A name without the slashes at its end. -/
def stripSlashes (name : String) : String :=
  String.ofList ((name.toList.reverse.dropWhile (· == '/')).reverse)

/-- Whether a name is that of a link with slashes after it. Such a name leads to what the link leads
to, but nothing can be removed by it. -/
def isSlashedLink (c : Context) (name : String) : Bool :=
  name.toList.getLast? = some '/' &&
    match c.fs.locate false (pathOf (stripSlashes name)) with
    | .ok (.taken _ (.link _)) => true
    | _ => false

/-- Removes what stands at a place and is no directory with something in it. -/
def removeAt (r : Request) (name : String) (place : Place) (node : Inode) (c : Context) :
    Outcome × Context :=
  let said := if node = .directory then "removed directory" else "removed"
  let remove (asked : Outcome) (c : Context) : Outcome × Context :=
    if isSlashedLink c name then
      (both asked (if r.force then {}
        else c.complaint s!"cannot remove {inShellQuotes name}: Not a directory"), c)
    else
      (both asked (if r.verbose then success (octets s!"{said} {inShellQuotes name}\n") else {}),
        { c with fs := c.fs.erase place })
  if r.asking = .each then
    let (yes, asked, after) := ask c s!"remove {kindName node} {inShellQuotes name}"
    if yes then remove asked after else (asked, after)
  else remove {} c

/-- Removes what stands at a place, and what stands below it first; `depth` bounds how far. -/
def removeTree (r : Request) : (depth : Nat) → (name : String) → Place → Inode → Context →
    Outcome × Context
  | 0, _, _, _, c => ({}, c)
  | depth + 1, name, place, node, c =>
    match node with
    | .directory =>
      let names := c.fs.namesIn place
      let (entered, asked, c) :=
        if r.asking = .each && !names.isEmpty then
          ask c s!"descend into directory {inShellQuotes name}"
        else (true, {}, c)
      if !entered then (asked, c)
      else
        let (result, c) := names.foldl (fun (result, c) child =>
          match c.fs.get? (place ++ [child]) with
          | none => (result, c)
          | some node =>
            let childName := stripSlashes name ++ "/" ++ ofOctets child
            let (one, c) := removeTree r depth childName (place ++ [child]) node c
            (both result one, c)) (asked, c)
        if (c.fs.namesIn place).isEmpty then
          let (one, c) := removeAt r name place node c
          (both result one, c)
        else (result, c)
    | _ => removeAt r name place node c

/-- The last name of a path, slashes at its end aside. -/
def lastPart (name : String) : List Char :=
  ((name.toList.reverse.dropWhile (· == '/')).takeWhile (· ≠ '/')).reverse

/-- Removes one operand. -/
def removeOne (r : Request) (name : String) (c : Context) : Outcome × Context :=
  let cannot (reason : String) : Outcome × Context :=
    (c.complaint s!"cannot remove {inShellQuotes name}: {reason}", c)
  match c.fs.locate false (pathOf name) with
  | .error e =>
    if r.force && (e = .os .noEntry || e = .os .notDirectory) then ({}, c) else cannot (faultText e)
  | .ok (.free ..) =>
    if r.force then ({}, c)
    else cannot (if isSlashedLink c name then "Not a directory" else "No such file or directory")
  | .ok (.taken place .directory) =>
    if r.recursive then
      if [".".toList, "..".toList].contains (lastPart name) then
        (c.complaint ("refusing to remove '.' or '..' directory: skipping " ++ inShellQuotes name), c)
      else if place = [] then
        (refusal (s!"{c.name}: it is dangerous to operate recursively on '/'\n" ++
          s!"{c.name}: use --no-preserve-root to override this failsafe\n") 1, c)
      else removeTree r (c.fs.nodes.length + 1) name place .directory c
    else if r.directories then
      if (c.fs.namesIn place).isEmpty then removeAt r name place .directory c
      else cannot "Directory not empty"
    else cannot "Is a directory"
  | .ok (.taken place node) =>
    if name.toList.getLast? ≠ some '/' then removeAt r name place node c
    else if r.force then ({}, c)
    else cannot "Not a directory"

/-- Whether a path leads to something, links not followed. -/
def isTaken (c : Context) (name : String) : Bool :=
  match c.fs.locate false (pathOf name) with
  | .ok (.taken ..) => true
  | _ => false

/-- The hint about the first argument that looks like an option and is the name of something. -/
def hint (c : Context) (arguments : List String) : String :=
  match arguments.find? fun word => word.toList.head? = some '-' && 1 < word.length && isTaken c word with
  | none => ""
  | some word =>
    let name := if needsQuotes word.toList then inShellQuotes word else word
    s!"Try '{c.name} ./{name}' to remove the file {inShellQuotes word}.\n"

/-- The options up to a name cut short that has a value, which is as wrong as for the whole name. -/
def upToValued : List Item → List Item
  | [] => []
  | item :: rest =>
    match item with
    | .option "abbreviated" (some _) => [.fault s!"option '--{unguarded}' doesn't allow an argument"]
    | _ => item :: upToValued rest

/-- The complaint about the first option that is none, with a hint. -/
def badOption? (c : Context) (arguments : List String) (items : List Item) : Option Outcome :=
  items.findSome? fun
    | .fault message => some
      (refusal (s!"{c.name}: {message}\n" ++ hint c arguments ++ c.advice) 1)
    | .option .. => none

/-- Removes files. -/
def run : Tool := fun arguments c =>
  let (items, operands) := options.scan arguments
  let items := upToValued items
  match applyOptions c (step c) {} (items.filter fun i => !i.isFault), badOption? c arguments items with
  | .error r, _ => (r, c)
  | .ok _, some fault => (fault, c)
  | .ok request, none =>
    if operands.isEmpty then (if request.force then {} else c.misuse "missing operand", c)
    else
      let much := request.asking = .once && (request.recursive || 3 < operands.length)
      let noun := if operands.length = 1 then "argument" else "arguments"
      let manner := if request.recursive then " recursively" else ""
      let (agreed, asked, c) :=
        if much then ask c s!"remove {operands.length} {noun}{manner}" else (true, {}, c)
      if !agreed then (asked, c)
      else
        operands.foldl (fun (result, c) name =>
          let (one, c) := removeOne request name c
          (both result one, c)) (asked, c)

end SourceJar.Tool.Remove
