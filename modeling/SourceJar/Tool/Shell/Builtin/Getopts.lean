import SourceJar.Tool.Shell.Builtin.Basic

/-!
The command of the shell that goes through the options of a script.
-/

namespace SourceJar.Tool.Shell

namespace Builtin

/-- Notes an option: what it is called, its value, the letters after it and the next index. -/
def reportOption (name shown : String) (value : Option String) (letters : List Char) (index : Nat)
    (s : State) : Except String State := do
  let s ← assign name shown { s with optionLetters := letters }
  let s ← match value with
    | some value => assign "OPTARG" value s
    | none => pure (s.setParameter "OPTARG" none)
  assign "OPTIND" (toString index) s

/-- Notes an option that is a letter of an argument; `index` is that of the next argument. -/
def takeOption (allowed : List Char) (name : String) (words : List String) (c : Char)
    (rest : List Char) (index : Nat) (s : State) : Except String State :=
  let silent := allowed.head? = some ':'
  let letter := String.singleton c
  let complaint (text : String) : State := s.write 2 (octets (text ++ "\n"))
  match if c = ':' then none else Split.cutFirst? c allowed with
  | none =>
    if silent then reportOption name "?" (some letter) rest index s
    else reportOption name "?" none rest index (complaint s!"Illegal option -{letter}")
  | some (_, after) =>
    if after.head? ≠ some ':' then reportOption name letter (some "") rest index s
    else if !rest.isEmpty then reportOption name letter (some (String.ofList rest)) [] index s
    else
      match words[index - 1]? with
      | some value => reportOption name letter (some value) [] (index + 1) s
      | none =>
        if silent then reportOption name ":" (some letter) [] index s
        else reportOption name "?" none [] index (complaint s!"No arg for -{letter} option")

def getopts : Builtin := fun arguments s => do
  match arguments with
  | allowed :: name :: given =>
    let words := if given.isEmpty then s.arguments else given
    let index := ((s.value? "OPTIND").bind number?).getD 1
    let close (index : Nat) : Except String State := do
      let s ← assign name "?" { s with optionLetters := [] }
      done 1 (← assign "OPTIND" (toString index) s)
    -- An index of one is a new start.
    match if index ≤ 1 then [] else s.optionLetters with
    | c :: rest => done 0 (← takeOption allowed.toList name words c rest index s)
    | [] =>
      match (words[index - 1]?.getD "").toList with
      | ['-', '-'] => close (index + 1)
      | '-' :: c :: rest => done 0 (← takeOption allowed.toList name words c rest (index + 1) s)
      | _ => close index
  | _ => throw "Usage: getopts optstring var [arg...]"

end Builtin

end SourceJar.Tool.Shell
