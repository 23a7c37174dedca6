import SourceJar.Tool.Options

/-!
`basename` and `dirname`: the last name of a path, and what stands before it.
-/

namespace SourceJar.Tool.PathName

/-- A path without slashes at its end, unless it is nothing else. -/
def dropTrailingSlashes (path : List Char) : List Char :=
  match (path.reverse.dropWhile (· == '/')).reverse with
  | [] => if path.isEmpty then [] else ['/']
  | kept => kept

/-- The last name of a path. -/
def lastName (path : String) : String :=
  let kept := dropTrailingSlashes path.toList
  if kept = ['/'] then "/"
  else
    match Split.cutLast? '/' kept with
    | some (_, name) => String.ofList name
    | none => String.ofList kept

/-- The name without an ending, unless it is nothing else. -/
def dropEnding (ending name : String) : String :=
  if Split.endsWith ending.toList name.toList && name ≠ ending && name ≠ "/" then
    String.ofList (name.toList.take (name.length - ending.length))
  else name

/-- A path without its last name. -/
def directoryName (path : String) : String :=
  match Split.cutLast? '/' (dropTrailingSlashes path.toList) with
  | none => "."
  | some (above, _) =>
    match dropTrailingSlashes above with
    | [] => "/"
    | kept => String.ofList kept

/-- What `basename` is told. -/
structure Request where
  multiple : Bool := false
  ending : String := ""
  lineEnd : String := "\n"

def options : Options where
  letters := [('a', .none), ('s', .required), ('z', .none)]
  names := [("multiple", "a", .none), ("suffix", "s", .required), ("zero", "z", .none)] ++
    Options.common
  inOrder := true

/-- Takes in one option. -/
def step (r : Request) (key : String) (value : Option String) : Except Outcome Request :=
  if key = "s" then .ok { r with multiple := true, ending := value.getD "" }
  else if key = "z" then .ok { r with lineEnd := "\x00" }
  else .ok { r with multiple := true }

/-- Writes the last names of paths, without an ending if one is given. -/
def basename : Tool := pureTool fun arguments c =>
  let (items, operands) := options.scan arguments
  match applyOptions c step {} items with
  | .error r => r
  | .ok r =>
    let line (ending path : String) : String := dropEnding ending (lastName path) ++ r.lineEnd
    match operands with
    | [] => c.misuse "missing operand"
    | first :: rest =>
      if r.multiple then success (octets (String.join (operands.map (line r.ending))))
      else
        match rest with
        | [] => success (octets (line "" first))
        | [ending] => success (octets (line ending first))
        | _ :: extra :: _ => c.misuse s!"extra operand {quotedValue extra}"

/-- Writes paths without their last names. -/
def dirname : Tool := pureTool fun arguments c =>
  let (items, operands) := (Options.flags [('z', "zero")] false).scan arguments
  match optionKeys c items with
  | .error r => r
  | .ok keys =>
    let lineEnd := if keys.isEmpty then "\n" else "\x00"
    if operands.isEmpty then c.misuse "missing operand"
    else success (octets (String.join (operands.map fun p => directoryName p ++ lineEnd)))

end SourceJar.Tool.PathName
