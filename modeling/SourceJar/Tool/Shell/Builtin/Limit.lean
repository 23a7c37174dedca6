import SourceJar.Tool.Shell.Builtin.Basic

/-!
The commands of the shell for what new files and processes may be: permissions and limits.
-/

namespace SourceJar.Tool.Shell

namespace Builtin

/-! ## Permissions -/

/-- The permissions of a mask in letters. -/
def maskLetters (mask : Nat) : String :=
  let digit (shift : Nat) : String :=
    let n := 7 - mask / shift % 8
    (if 4 ≤ n then "r" else "") ++ (if n % 4 < 2 then "" else "w") ++ (if n % 2 = 0 then "" else "x")
  s!"u={digit 64},g={digit 8},o={digit 1}\n"

/-- The bit that stands for a class of users in a set of them, or for all classes. -/
def classBits? : Char → Option Nat
  | 'a' => some 0o111
  | 'u' => some 0o100
  | 'g' => some 0o010
  | 'o' => some 0o001
  | _ => none

/-- The permissions that a letter stands for, where `granted` are those of all classes at first. -/
def permissionBits? (granted : Nat) : Char → Option Nat
  | 'r' => some 4
  | 'w' => some 2
  | 'x' => some 1
  | 'u' => some (granted / 64 % 8)
  | 'g' => some (granted / 8 % 8)
  | 'o' => some (granted % 8)
  | 'X' => some (if granted &&& 0o111 = 0 then 0 else 1)
  | 's' => some 0
  | _ => none

/-- The bits of the letters at the start of a text, as one number, and the rest of the text. -/
def bitsAtStart (bits? : Char → Option Nat) : List Char → Nat × List Char
  | [] => (0, [])
  | c :: rest =>
    match bits? c with
    | none => (0, c :: rest)
    | some bits =>
      let (more, rest) := bitsAtStart bits? rest
      (bits ||| more, rest)

/-- Changes permissions as a mode says: classes, and signs with permissions, in parts with commas
between them. The classes stay for a sign right after the permissions of another. Each step takes a
sign or a comma, so `fuel` is the number of characters. -/
def changePermissions (granted : Nat) : (fuel classes permissions : Nat) → List Char → Option Nat
  | 0, _, permissions, text => if text.isEmpty then some permissions else none
  | _, _, permissions, [] => some permissions
  | fuel + 1, classes, permissions, text =>
    let (more, text) := bitsAtStart classBits? text
    let classes := if classes ||| more = 0 then 0o111 else classes ||| more
    match text with
    | [] => none
    | sign :: rest =>
      let (bits, rest) := bitsAtStart (permissionBits? granted) rest
      let change := bits * classes
      let without (n : Nat) : Nat := permissions &&& (0o777 - n)
      let changed := if sign = '+' then some (permissions ||| change)
        else if sign = '-' then some (without change)
        else if sign = '=' then some (without (7 * classes) ||| change)
        else none
      match changed, rest with
      | none, _ => none
      | some permissions, ',' :: rest => changePermissions granted fuel 0 permissions rest
      | some permissions, rest =>
        if rest.head?.all ['=', '+', '-'].contains then
          changePermissions granted fuel classes permissions rest
        else none

def umask : Builtin := fun arguments s => do
  let (letters, operands) ← letterOptions ['S'] arguments
  match operands with
  | [] =>
    done 0 (s.print (if letters.isEmpty then String.ofList (digitsIn 8 4 s.mask) ++ "\n"
      else maskLetters s.mask))
  | mode :: _ =>
    if mode.toList.head?.any Char.isDigit then
      if mode.toList.all fun d => (digitIn? 8 d).isSome then
        done 0 { s with mask := digitsValue 8 mode.toList % 0o1000 }
      else throw s!"Illegal number: {mode}"
    else
      let granted := 0o777 - s.mask
      match changePermissions granted mode.length 0 granted mode.toList with
      | some permissions => done 0 { s with mask := 0o777 - permissions }
      | none => throw s!"Illegal mode: {mode}"

/-! ## Limits -/

/-- A limit: what it is called, and what it is at first; none if there is none. -/
structure Limit where
  letter : Char
  name : String
  value : Option Nat

/-- The limits, in the order in which they are shown. -/
def limits : List Limit :=
  [⟨'t', "time(seconds)", none⟩, ⟨'f', "file(blocks)", none⟩, ⟨'d', "data(kbytes)", none⟩,
    ⟨'s', "stack(kbytes)", some 8192⟩, ⟨'c', "coredump(blocks)", some 0⟩,
    ⟨'m', "memory(kbytes)", none⟩, ⟨'l', "locked memory(kbytes)", some 8192⟩,
    ⟨'p', "process", none⟩, ⟨'n', "nofiles", some 1048576⟩, ⟨'v', "vmemory(kbytes)", none⟩,
    ⟨'w', "locks", none⟩, ⟨'r', "rtprio", some 0⟩]

/-- The text of a limit as it is now. -/
def limitText (s : State) (limit : Limit) : String :=
  match (s.limits.lookup limit.letter).getD limit.value with
  | some n => toString n
  | none => "unlimited"

def ulimit : Builtin := fun arguments s => do
  let (letters, operands) ← letterOptions ('H' :: 'S' :: 'a' :: limits.map (·.letter)) arguments
  let all := letters.contains 'a'
  let letter := (letters.filter fun c => c ≠ 'H' && c ≠ 'S' && c ≠ 'a').getLast?.getD 'f'
  match operands with
  | [] =>
    if all then
      let padded (name : String) : String :=
        name ++ String.ofList (List.replicate (20 - name.length) ' ') ++ " "
      done 0 (s.print (String.join (limits.map fun l => padded l.name ++ limitText s l ++ "\n")))
    else
      let found := limits.filter fun l => l.letter = letter
      done 0 (s.print (String.join (found.map fun l => limitText s l ++ "\n")))
  | text :: rest =>
    if all || !rest.isEmpty then throw "too many arguments"
    else if text = "unlimited" then done 0 { s with limits := (letter, none) :: s.limits }
    else if text.toList.all Char.isDigit then
      done 0 { s with limits := (letter, some (digitsValue 10 text.toList)) :: s.limits }
    else throw "bad number"

end Builtin

end SourceJar.Tool.Shell
