import SourceJar.Tool.Shell.Builtin.Basic

/-!
The commands of the shell for aliases.
-/

namespace SourceJar.Tool.Shell

namespace Builtin

/-- How an alias is shown. -/
def aliasLine (name text : String) : String := name ++ "=" ++ quotedForShell text ++ "\n"

/-- Sets or shows what an argument of `alias` says. An equals sign at its start belongs to the name. -/
def takeAlias (s : State) (argument : String) : State :=
  let cut := match argument.toList with
    | [] => none
    | c :: rest => (Split.cutFirst? '=' rest).map fun (name, text) => (c :: name, text)
  match cut with
  | some (name, text) =>
    { s with aliases := setEntry (String.ofList name) (String.ofList text) s.aliases }
  | none =>
    match s.aliases.lookup argument with
    | some text => s.print (aliasLine argument text)
    | none => { s.write 2 (octets s!"alias: {argument} not found\n") with status := 1 }

/-- Sets and shows aliases. -/
def setAliases : Builtin := fun arguments s =>
  let s := { s with status := 0 }
  if arguments.isEmpty then
    return s.print (String.join ((inBuckets 39 s.aliases).map fun (name, text) => aliasLine name text))
  else return arguments.foldl takeAlias s

/-- Takes aliases back. -/
def dropAliases : Builtin := fun arguments s => do
  let (letters, operands) ← letterOptions ['a'] arguments
  if letters.contains 'a' then done 0 { s with aliases := [] }
  else
    return operands.foldl (fun s name =>
      if (s.aliases.lookup name).isSome then { s with aliases := dropEntry name s.aliases }
      else { s.write 2 (octets s!"unalias: {name} not found\n") with status := 1 })
      { s with status := 0 }

end Builtin

end SourceJar.Tool.Shell
