import SourceJar.Tool.Shell.Builtin.Basic

/-!
The command of the shell that reads a line.
-/

namespace SourceJar.Tool.Shell

namespace Builtin

/-- Reads a line with its backslashes undone: the line, with the characters behind backslashes marked
as parting no fields, what is left, and whether the line has an end. -/
def readLine (raw : Bool) : Bytes → List Mark × Bytes × Bool
  | [] => ([], [], false)
  | b :: rest =>
    let c := Char.ofNat b.toNat
    if c = '\n' then ([], rest, true)
    else if c = '\x00' then readLine raw rest
    else if c = '\\' && !raw then
      match rest with
      | [] => ([], [], false)
      | b :: rest =>
        let (marks, left, ended) := readLine raw rest
        (if b = 0x0A then marks else .char (Char.ofNat b.toNat) true false :: marks, left, ended)
    else
      let (marks, left, ended) := readLine raw rest
      (.char c false true :: marks, left, ended)

/-- The first field of a line, and the rest of it behind the separator. -/
def takeField (separators : List Char) (marks : List Mark) : List Mark × List Mark :=
  let isBlankSeparator := isSeparator separators isBlank
  let marks := marks.dropWhile isBlankSeparator
  let field := marks.takeWhile fun m => !isSeparator separators (fun _ => true) m
  let rest := (marks.drop field.length).dropWhile isBlankSeparator
  match rest with
  | m :: more =>
    if isSeparator separators (fun c => !isBlank c) m then (field, more.dropWhile isBlankSeparator)
    else (field, rest)
  | [] => (field, [])

/-- The last field of a line: all of it without blanks around it, unless it has only one field. -/
def lastField (separators : List Char) (marks : List Mark) : String :=
  match fields separators (marks.length + 1) [] false marks with
  | [] => ""
  | [field] => String.ofList (field.map (·.1))
  | _ =>
    let isBlankSeparator := isSeparator separators isBlank
    let start := marks.dropWhile isBlankSeparator
    String.ofList (plainText (start.reverse.dropWhile isBlankSeparator).reverse)

/-- Gives names the fields of a line, up to the first name that cannot have one; also what is wrong
with that name. -/
def assignFields (separators : List Char) : List String → List Mark → State → State × Option String
  | [], _, s => (s, none)
  | name :: rest, marks, s =>
    let (field, after) := takeField separators marks
    let value :=
      if rest.isEmpty then lastField separators marks else String.ofList (plainText field)
    match pairOf (bareName name) with
    | .error e => (s, some e)
    | .ok (name, _) =>
      match assign name value s with
      | .error e => (s, some e)
      | .ok s => assignFields separators rest after s

/-- Reads the options of `read`: whether backslashes stay, and the names. A prompt is not shown. Each
argument is read once, so `fuel` is their number. -/
def readOptions : (fuel : Nat) → List String → Except String (Bool × List String)
  | 0, names => .ok (false, names)
  | _, [] => .ok (false, [])
  | fuel + 1, word :: rest =>
    match word.toList with
    | ['-', '-'] => .ok (false, rest)
    | '-' :: c :: letters =>
      let options := c :: letters
      let before := options.takeWhile (· ≠ 'p')
      match before.find? (· ≠ 'r') with
      | some bad => .error ("Illegal option -" ++ String.singleton bad)
      | none =>
        let prompt := options.drop before.length
        if prompt = ['p'] && rest.isEmpty then .error "No arg for -p option"
        else do
          let (raw, names) ← readOptions fuel (if prompt = ['p'] then rest.drop 1 else rest)
          return (raw || !before.isEmpty, names)
    | _ => .ok (false, word :: rest)

def read : Builtin := fun arguments s => do
  let (raw, names) ← readOptions arguments.length arguments
  if names.isEmpty then throw "arg count"
  else
    let (marks, left, ended) := readLine raw (s.input 0).1
    match assignFields s.separators names marks (s.leaveInput 0 left) with
    | (s, some e) => done 2 (s.complain e)
    | (s, none) => done (if ended then 0 else 1) s

end Builtin

end SourceJar.Tool.Shell
