import SourceJar.Tool.Format
import SourceJar.FileSystem.Operations

/-!
Conditions of a shell: comparisons of texts and numbers, and questions about files.

A condition is a row of words. A word can be an operator or an operand, which depends on the words
after it; the functions here take the row from the word at hand on, and give it back from the last word
that they have used on.
-/

namespace SourceJar.Tool.Shell.Test

/-- What a word is in a condition. -/
inductive Role where
  | nothing
  | unary
  | binary
  | not
  | and
  | or
  | opening
  | closing
  | operand
  deriving DecidableEq, Repr

/-- The operators of one operand that ask about a file. -/
def fileOperators : List String :=
  ["-r", "-w", "-x", "-e", "-f", "-d", "-c", "-b", "-p", "-u", "-g", "-k", "-s", "-t", "-h", "-O", "-G",
    "-L", "-S"]

def binaryOperators : List String :=
  ["=", "!=", "<", ">", "-eq", "-ne", "-ge", "-gt", "-le", "-lt", "-nt", "-ot", "-ef"]

/-- What a word is by itself. -/
def roleOf (word : String) : Role :=
  if word = "-z" || word = "-n" || fileOperators.contains word then .unary
  else if binaryOperators.contains word then .binary
  else if word = "!" then .not
  else if word = "-a" then .and
  else if word = "-o" then .or
  else if word = "(" then .opening
  else if word = ")" then .closing
  else .operand

/-- What the first word of a row is. -/
def role (words : List String) : Role :=
  match words with
  | [] => .nothing
  | word :: rest =>
    let isOperand : Bool := match roleOf word, rest with
      | .unary, [] => true
      | .unary, [_] => false
      | .unary, next :: _ => roleOf next = .binary
      | .opening, [] => true
      | _, _ => false
    if isOperand then .operand else roleOf word

/-- The number that a word is as a whole. -/
def numberOf (word : String) : Except String Int :=
  let text := word.toList.dropWhile isSpace
  let (negative, unsigned) := Floating.signOf text
  let digits := unsigned.takeWhile Char.isDigit
  let n : Int := digitsValue 10 digits
  let value := if negative then -n else n
  if digits.isEmpty || ((unsigned.drop digits.length).any fun c => !isSpace c) ||
      value < Format.leastSigned || Format.greatestSigned < value then
    .error s!"Illegal number: {word}"
  else .ok value

/-- Whether a walk ends at a link. -/
def isLink : Except IoFault FileSystem.Spot → Bool
  | .ok (.taken _ (.link _)) => true
  | _ => false

/-- The answer to a question about what a path leads to. -/
def askNode (operator : String) (place : Place) (node : Inode) : Bool :=
  match node with
  | .file content => ["-e", "-f", "-r", "-w", "-O", "-G"].contains operator ||
      (operator = "-x" && isProgramPlace place) ||
      (operator = "-s" && (isProgramPlace place || !content.isEmpty))
  | .directory => ["-e", "-d", "-r", "-w", "-x", "-s", "-O", "-G"].contains operator
  | .device => ["-e", "-c", "-r", "-w", "-O", "-G"].contains operator
  | .link _ => false

/-- The files that questions are about. -/
structure Files where
  system : FileSystem
  /-- The paths that stand for pipes. -/
  pipes : List String := []

/-- The answer to a question about a file. -/
def askFile (fs : Files) (operator path : String) : Bool :=
  if fs.pipes.contains path then ["-e", "-p", "-r", "-w", "-O", "-G", "-h", "-L"].contains operator
  else if operator = "-h" || operator = "-L" then isLink (fs.system.locate false (pathOf path))
  else
    match fs.system.locate true (pathOf path) with
    | .ok (.taken place node) => askNode operator place node
    | _ => false

/-- Whether two paths lead to the same place. -/
def isSame (fs : Files) (a b : String) : Bool :=
  match fs.system.locate true (pathOf a), fs.system.locate true (pathOf b) with
  | .ok (.taken p _), .ok (.taken q _) => p = q
  | _, _ => false

/-- The value of an operator of two operands. All files are of the same age. -/
def compare (fs : Files) (operator a b : String) : Except String Bool := do
  let numbers (holds : Int → Int → Bool) : Except String Bool :=
    return holds (← numberOf a) (← numberOf b)
  match operator with
  | "=" => return a = b
  | "!=" => return a ≠ b
  | "<" => return a < b
  | ">" => return b < a
  | "-eq" => numbers fun m n => m = n
  | "-ne" => numbers fun m n => m ≠ n
  | "-ge" => numbers fun m n => n ≤ m
  | "-gt" => numbers fun m n => n < m
  | "-le" => numbers fun m n => m ≤ n
  | "-lt" => numbers fun m n => m < n
  | "-ef" => return isSame fs a b
  | _ => return false

mutual

/-- Alternatives; `r` is what the first word is. -/
def alternatives (fs : Files) : (fuel : Nat) → Role → List String →
    Except String (Bool × List String)
  | 0, _, words => .ok (false, words)
  | fuel + 1, r, words => do
    let (first, words) ← together fs fuel r words
    if role (words.drop 1) = .or then
      let words := words.drop 2
      let (second, words) ← alternatives fs fuel (role words) words
      return (first || second, words)
    else return (first, words)

/-- Conditions that hold together. -/
def together (fs : Files) : (fuel : Nat) → Role → List String → Except String (Bool × List String)
  | 0, _, words => .ok (false, words)
  | fuel + 1, r, words => do
    let (first, words) ← negation fs fuel r words
    if role (words.drop 1) = .and then
      let words := words.drop 2
      let (second, words) ← together fs fuel (role words) words
      return (first && second, words)
    else return (first, words)

/-- A condition, or one that must not hold. -/
def negation (fs : Files) : (fuel : Nat) → Role → List String → Except String (Bool × List String)
  | 0, _, words => .ok (false, words)
  | fuel + 1, r, words => do
    if r ≠ .not then primary fs fuel r words
    else
      let next := role (words.drop 1)
      let (value, words) ←
        negation fs fuel next (if next = .nothing then words else words.drop 1)
      return (!value, words)

/-- A condition without others in it, or one in brackets. -/
def primary (fs : Files) : (fuel : Nat) → Role → List String → Except String (Bool × List String)
  | 0, _, words => .ok (false, words)
  | fuel + 1, r, words => do
    match r, words with
    | .nothing, _ => return (false, words)
    | .opening, _ =>
      let words := words.drop 1
      if role words = .closing then return (false, words)
      else
        let (value, words) ← alternatives fs fuel (role words) words
        let words := words.drop 1
        if role words ≠ .closing then throw "closing paren expected"
        return (value, words)
    | .unary, [operator] => throw s!"{operator}: argument expected"
    | .unary, operator :: operand :: rest =>
      return (if operator = "-z" then operand = "" else if operator = "-n" then operand ≠ ""
        else askFile fs operator operand, operand :: rest)
    | _, word :: rest =>
      if role rest = .binary then
        match rest with
        | operator :: operand :: rest => return (← compare fs operator word operand, operand :: rest)
        | [operator] => throw s!"{operator}: argument expected"
        | [] => return (word ≠ "", words)
      else return (word ≠ "", words)
    | _, [] => return (false, words)

end

/-- The value of a row of words with more rules than one for short rows: three words of which the
second is an operator are a comparison, and brackets around or a `!` before the others come off first.
`fuel` is the number of words. -/
def evaluate (fs : Files) : (fuel : Nat) → List String → Except String Bool
  | 0, _ => .ok false
  | fuel + 1, words => do
    let general (r : Role) (words : List String) : Except String Bool := do
      let (value, rest) ← alternatives fs (4 * words.length + 4) r words
      match rest with
      | word :: _ :: _ => throw (if word = "" then "unexpected operator" else s!"{word}: unexpected operator")
      | _ => return value
    if words.isEmpty then return false
    else if words.length = 3 && (words[1]?.map roleOf) = some .binary then general .operand words
    else if words.length = 3 || words.length = 4 then
      if words.head? = some "(" && words.getLast? = some ")" then
        let inside := (words.drop 1).dropLast
        general (role inside) inside
      else if words.head? = some "!" then return !(← evaluate fs fuel (words.drop 1))
      else general (role words) words
    else general (role words) words

/-- The value of the arguments of `test`, or of `[`, which end in a bracket. -/
def run (fs : Files) (name : String) (arguments : List String) : Except String Bool :=
  if name = "[" then
    if arguments.getLast?.any fun last => last.toList.head? = some ']' then
      evaluate fs (arguments.length + 1) arguments.dropLast
    else .error "missing ]"
  else evaluate fs (arguments.length + 1) arguments

end SourceJar.Tool.Shell.Test
