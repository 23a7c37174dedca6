import SourceJar.Tool.Basic
import SourceJar.Tool.Shell.Tree

/-!
Reading shell scripts.

A script is read a line of commands at a time, so that a fault in it shows only after the lines before
it have been run. Words are read character by character, since quotes, parameters and commands nest;
inside of them `inner` reads commands, and the readers of commands are given it too. It is the same
reader, one level further down.
-/

namespace SourceJar.Tool.Shell

/-- A script that cannot be read. -/
structure SyntaxFault where
  line : Nat
  message : String
  deriving DecidableEq, Repr

/-- What a script is made of. -/
inductive Token where
  /-- A word; `quoted`: some of it is in quotes. -/
  | word (parts : Word) (quoted : Bool)
  | keyword (text : String)
  | operator (text : String)
  | redirection (descriptor : Option Nat) (symbol : String)
  | newline
  | ending

/-- A text in place of a file that follows the line. -/
structure PendingText where
  index : Nat
  mark : List Char
  stripTabs : Bool
  /-- Whether parameters and commands go in places in it. -/
  expands : Bool

/-- An alias whose text is being read. -/
structure OpenAlias where
  name : String
  /-- How much is left to be read behind the text. -/
  left : Nat
  /-- Whether the text ends in a blank: the word behind it can then be an alias too. -/
  blank : Bool

/-- What is left of a script. -/
structure Reader where
  rest : List Char
  line : Nat := 1
  /-- Whether a verbose shell shows the lines. -/
  shown : Bool := false
  aliases : List (String × String) := []
  /-- The aliases whose texts are being read, the innermost first. -/
  opened : List OpenAlias := []
  pushed : Option Token := none
  pending : List PendingText := []
  /-- The texts in place of files, by their numbers. -/
  texts : List (Nat × Word) := []
  nextIndex : Nat := 0

/-- Reading a part of a script. -/
abbrev Read := StateT Reader (Except SyntaxFault)

/-- How a row of commands ends. -/
inductive Extent where
  /-- With the line. -/
  | line
  /-- With a word that ends a body, after a command. -/
  | body
  /-- With a word that ends a body. -/
  | optional
  deriving DecidableEq

namespace Token

/-- What a token is called in a complaint. -/
def name : Token → String
  | .word .. => "word"
  | .keyword text => "\"" ++ text ++ "\""
  | .operator text => "\"" ++ text ++ "\""
  | .redirection .. => "redirection"
  | .newline => "newline"
  | .ending => "end of file"

def isOperator (t : Token) (text : String) : Bool :=
  match t with
  | .operator other => other = text
  | _ => false

def isKeyword (t : Token) (text : String) : Bool :=
  match t with
  | .keyword other => other = text
  | _ => false

/-- Whether a token ends a row of commands. -/
def endsBody : Token → Bool
  | .operator text => text = ")" || text = ";;"
  | .keyword text =>
    ["do", "done", "elif", "else", "esac", "fi", "then", "\x7d"].contains text
  | .ending => true
  | _ => false

end Token

/-- The words with a meaning of their own at the start of a command. -/
def keywords : List String :=
  ["!", "case", "do", "done", "elif", "else", "esac", "fi", "for", "if", "in", "then", "until", "while",
    "\x7b", "\x7d"]

/-- The parameters with names of one special character. -/
def isSpecialParameter (c : Char) : Bool := "@*#?-$!".toList.contains c || c.isDigit

/-! ## Characters -/

def fault {α : Type} (message : String) : Read α := do
  throw ⟨(← get).line, s!"Syntax error: {message}"⟩

/-- Goes on behind so many characters. -/
def advance (n : Nat) : Read Unit := modify fun r =>
  { r with rest := r.rest.drop n, line := r.line + (r.rest.take n).count '\n' }

/-- Escaped line ends at the start of a text, and what follows them. -/
def dropJoins : List Char → Nat × List Char
  | '\\' :: '\n' :: rest =>
    let (n, after) := dropJoins rest
    (n + 1, after)
  | rest => (0, rest)

/-- Goes on behind escaped line ends. -/
def skipJoins : Read Unit := modify fun r =>
  let (n, rest) := dropJoins r.rest
  { r with rest, line := r.line + n }

/-- The next character, which stays. -/
def peek : Read (Option Char) := return (← get).rest.head?

/-- The next character behind escaped line ends, which stays. -/
def peekJoined : Read (Option Char) := do
  skipJoins
  peek

/-- Takes characters as long as they are of a kind, escaped line ends left out. Each step takes one, so
`fuel` is their number. -/
def takeJoined (isWanted : Char → Bool) : (fuel : Nat) → Read (List Char)
  | 0 => return []
  | fuel + 1 => do
    match ← peekJoined with
    | some c =>
      if isWanted c then
        advance 1
        return c :: (← takeJoined isWanted fuel)
      else return []
    | none => return []

/-- How many steps the texts of aliases can add. -/
def maxAliasSteps : Nat := 1000000

/-- A number of steps that is enough for what is left. -/
def Reader.steps (r : Reader) : Nat :=
  r.rest.length + 2 + (if r.aliases.isEmpty then 0 else maxAliasSteps)

def enough : Read Nat := return (← get).steps

/-! ## Aliases -/

/-- Whether the text of an alias is being read, or its last word has just been. -/
def Reader.isOpen (r : Reader) (a : OpenAlias) : Bool := a.left ≤ r.rest.length

/-- The text of an alias, unless it is being read. -/
def Reader.alias? (r : Reader) (name : String) : Option String :=
  if r.opened.any fun a => a.name = name && r.isOpen a then none else r.aliases.lookup name

/-- Goes on with the text of an alias. -/
def Reader.openAlias (r : Reader) (name : String) (text : List Char) : Reader :=
  let opened := r.opened.filter r.isOpen
  let blank := text.getLast? = some ' ' || text.getLast? = some '\t'
  { r with
    rest := text ++ r.rest
    opened := if text.isEmpty then opened else ⟨name, r.rest.length, blank⟩ :: opened }

/-- Whether the end of an alias that ends in a blank has been passed since so much was left. -/
def Reader.passedBlank (r : Reader) (left : Nat) : Bool :=
  r.opened.any fun a => a.blank && a.left < left && r.rest.length ≤ a.left

/-- The aliases of a script as they are for a text within it. -/
def Reader.heldAliases (r : Reader) : List OpenAlias :=
  (r.opened.filter r.isOpen).map fun a => { a with left := 0, blank := false }

/-- How much of the script itself is left. -/
def Reader.scriptLeft (r : Reader) : Nat :=
  ((r.opened.filter r.isOpen).map (·.left)).foldl min r.rest.length

/-! ## Words -/

/-- Joins texts that stand beside each other. -/
def mergeTexts : Word → Word
  | [] => []
  | .text a q :: rest =>
    match mergeTexts rest with
    | .text b p :: more => if p = q then .text (a ++ b) q :: more else .text a q :: .text b p :: more
    | more => .text a q :: more
  | part :: rest => part :: mergeTexts rest

/-- The text in single quotes, after the first of them. -/
def singleQuoted : Read (List Char) := do
  let r ← get
  let text := r.rest.takeWhile (· ≠ '\'')
  advance text.length
  if (← peek).isNone then fault "Unterminated quoted string"
  advance 1
  return text

/-- The text of old-style commands up to the closing mark, with a level of backslashes undone. -/
def backquoted (inDouble : Bool) : (fuel : Nat) → Read (List Char)
  | 0 => return []
  | fuel + 1 => do
    match ← peekJoined with
    | none => fault "EOF in backquote substitution"
    | some '`' =>
      advance 1
      return []
    | some '\\' =>
      advance 1
      match ← peek with
      | none => fault "EOF in backquote substitution"
      | some c =>
        advance 1
        let kept := if c = '\\' || c = '`' || c = '$' || (inDouble && c = '"') then [c] else ['\\', c]
        return kept ++ (← backquoted inDouble fuel)
    | some c =>
      advance 1
      return c :: (← backquoted inDouble fuel)

/-- The commands of a text of its own. -/
def nestedText (inner : Extent → Read (List Tree)) (text : List Char) : Read (List Tree) := do
  let outer ← get
  set { outer with
    rest := text, line := 1, pushed := none, pending := [], opened := outer.heldAliases }
  let script ← inner .optional
  let after ← get
  set { outer with texts := after.texts, nextIndex := after.nextIndex }
  return script

/-- Takes the next token and says what it is, without keywords. -/
def nestedScript (inner : Extent → Read (List Tree)) : Read (List Tree) := do
  let outer ← get
  set { outer with pushed := none, pending := [] }
  let script ← inner .optional
  let token := (← get).pushed.getD .ending
  unless token.isOperator ")" do fault s!"{token.name} unexpected (expecting \")\")"
  modify fun r => { r with pushed := none, pending := outer.pending }
  return script

/-- What goes on after the name of a parameter in braces. -/
inductive Continuation where
  | closed (change : Change)
  | fallback (kind : Fallback) (orEmpty : Bool)
  | trim (atEnd longest : Bool)
  /-- No change that there is: a word up to the brace is read all the same. -/
  | invalid

/-- Goes on behind a character that is no change; a line end in its place does not count. -/
def invalidChange : Read Continuation := do
  modify fun r => { r with rest := r.rest.drop 1 }
  return .invalid

/-- Reads what follows the name of a parameter in braces. -/
def continuation : Read Continuation := do
  let fallbackOf (c : Char) : Option Fallback :=
    [('-', Fallback.use), ('=', .assign), ('?', .complain), ('+', .replace)].lookup c
  match ← peekJoined with
  | some '\x7d' =>
    advance 1
    return .closed .keep
  | some ':' =>
    advance 1
    match ← peekJoined with
    | some c =>
      match fallbackOf c with
      | some kind =>
        advance 1
        return .fallback kind true
      | none => invalidChange
    | none => return .invalid
  | some c =>
    match fallbackOf c with
    | some kind =>
      advance 1
      return .fallback kind false
    | none =>
      if c = '%' || c = '#' then
        advance 1
        let longest := (← peekJoined) = some c
        if longest then advance 1
        return .trim (c = '%') longest
      else invalidChange
  | none => return .invalid

/-- Reads the name of a parameter in braces, and whether its length is asked for. -/
def bracedName : Read (String × Option Continuation) := do
  let fuel ← enough
  let readName : Read String := do
    match ← peekJoined with
    | some c =>
      if isNameStart c then return String.ofList (← takeJoined isNameChar fuel)
      else if c.isDigit then return String.ofList (← takeJoined Char.isDigit fuel)
      else if isSpecialParameter c then
        advance 1
        return String.singleton c
      else return ""
    | none => return ""
  match ← peekJoined with
  | some '#' =>
    advance 1
    match ← peekJoined with
    | some c =>
      let before ← get
      let name ← if isNameChar c || isSpecialParameter c then readName else pure ""
      if name ≠ "" && (← peekJoined) = some '\x7d' then
        advance 1
        return (name, some (.closed .length))
      else if isNameChar c then return (name, some .invalid)
      else
        set before
        return ("#", none)
    | none => return ("#", none)
  | next =>
    let name ← readName
    if name ≠ "" then return (name, none)
    else if next = some '\x7d' then return (name, some .invalid)
    else return (name, some (← invalidChange))

/-- What is around the characters of a word. -/
inductive Around where
  | nothing
  /-- Double quotes. -/
  | double
  /-- A text in place of a file. -/
  | text
  deriving DecidableEq

mutual

/-- Reads a dollar sign and what belongs to it. -/
def dollar (inner : Extent → Read (List Tree)) (quoted : Bool) : (fuel : Nat) → Read Word
  | 0 => return []
  | fuel + 1 => do
    advance 1
    match ← peekJoined with
    | some '(' =>
      advance 1
      if (← peekJoined) = some '(' then
        advance 1
        return [.value (mergeTexts (← expression inner 0 fuel)) quoted]
      else return [.output (← nestedScript inner) quoted]
    | some '\x7b' =>
      advance 1
      let (name, found) ← bracedName
      let next ← match found with
        | some next => pure next
        | none => continuation
      match next with
      | .closed change => return [.parameter name change quoted]
      | .fallback kind orEmpty =>
        let word ← if quoted then inDouble inner .double true false fuel else bare inner true fuel
        return [.parameter name (.fallback kind orEmpty (mergeTexts word)) quoted]
      | .trim atEnd longest =>
        return [.parameter name (.trim atEnd longest (mergeTexts (← bare inner true fuel))) quoted]
      | .invalid =>
        let _ ← if quoted then inDouble inner .double true false fuel else bare inner true fuel
        return [.parameter name .invalid quoted]
    | some c =>
      if isNameStart c then
        return [.parameter (String.ofList (← takeJoined isNameChar (← enough))) .keep quoted]
      else if isSpecialParameter c then
        advance 1
        return [.parameter (String.singleton c) .keep quoted]
      else return [.text ['$'] quoted]
    | none => return [.text ['$'] quoted]

/-- Reads characters without quotes around them, up to what ends a word, or up to the brace that ends a
word in braces. -/
def bare (inner : Extent → Read (List Tree)) (inBraces : Bool) : (fuel : Nat) → Read Word
  | 0 => return []
  | fuel + 1 => do
    match (← get).rest with
    | [] => if inBraces then fault "Missing '\x7d'" else return []
    | '\\' :: '\n' :: _ =>
      advance 2
      bare inner inBraces fuel
    | ['\\'] =>
      advance 1
      return .text ['\\'] true :: (← bare inner inBraces fuel)
    | '\\' :: c :: _ =>
      advance 2
      return .text [c] true :: (← bare inner inBraces fuel)
    | '\'' :: _ =>
      advance 1
      return .text (← singleQuoted) true :: (← bare inner inBraces fuel)
    | '"' :: _ =>
      advance 1
      let parts ← inDouble inner .double false false fuel
      return .text [] true :: parts ++ (← bare inner inBraces fuel)
    | '$' :: _ => return (← dollar inner false fuel) ++ (← bare inner inBraces fuel)
    | '`' :: _ =>
      advance 1
      let script ← nestedText inner (← backquoted false (← enough))
      return .output script false :: (← bare inner inBraces fuel)
    | c :: _ =>
      if inBraces then
        advance 1
        if c = '\x7d' then return [] else return .text [c] false :: (← bare inner inBraces fuel)
      else if " \t\n;&()<>|".toList.contains c then return []
      else
        advance 1
        return .text [c] false :: (← bare inner inBraces fuel)

/-- Reads characters in double quotes up to the closing one, those of a text up to its end, or those of
a word in braces up to the brace; `inQuotes`: quotes have been opened in the braces. -/
def inDouble (inner : Extent → Read (List Tree)) (around : Around) (inBraces inQuotes : Bool) :
    (fuel : Nat) → Read Word
  | 0 => return []
  | fuel + 1 => do
    let literal := around = .text && !inBraces
    match (← get).rest with
    | [] =>
      if around = .text then (if inBraces then fault "Missing '\x7d'" else return [])
      else fault "Unterminated quoted string"
    | '\\' :: '\n' :: _ =>
      advance 2
      inDouble inner around inBraces inQuotes fuel
    | ['\\'] =>
      advance 1
      return .text ['\\'] true :: (← inDouble inner around inBraces inQuotes fuel)
    | '\\' :: c :: _ =>
      advance 2
      let escapes := c = '\\' || c = '`' || c = '$' || (c = '"' && !literal) ||
        (c = '\x7d' && inBraces)
      return .text (if escapes then [c] else ['\\', c]) true ::
        (← inDouble inner around inBraces inQuotes fuel)
    | '"' :: _ =>
      advance 1
      if literal then return .text ['"'] true :: (← inDouble inner around inBraces inQuotes fuel)
      else if inBraces then inDouble inner around inBraces (!inQuotes) fuel
      else return []
    | '$' :: _ =>
      return (← dollar inner true fuel) ++ (← inDouble inner around inBraces inQuotes fuel)
    | '`' :: _ =>
      advance 1
      let script ← nestedText inner (← backquoted true (← enough))
      return .output script true :: (← inDouble inner around inBraces inQuotes fuel)
    | c :: _ =>
      advance 1
      if c = '\x7d' && inBraces && !inQuotes then return []
      else return .text [c] true :: (← inDouble inner around inBraces inQuotes fuel)

/-- Reads an expression up to two closing brackets; `depth` is the number of open ones. -/
def expression (inner : Extent → Read (List Tree)) (depth : Nat) : (fuel : Nat) → Read Word
  | 0 => return []
  | fuel + 1 => do
    match (← get).rest with
    | [] => fault "Missing '))'"
    | '\\' :: '\n' :: _ =>
      advance 2
      expression inner depth fuel
    | '"' :: _ =>
      advance 1
      expression inner depth fuel
    | '$' :: _ => return (← dollar inner true fuel) ++ (← expression inner depth fuel)
    | '`' :: _ =>
      advance 1
      let script ← nestedText inner (← backquoted true (← enough))
      return .output script true :: (← expression inner depth fuel)
    | '(' :: _ =>
      advance 1
      return .text ['('] true :: (← expression inner (depth + 1) fuel)
    | ')' :: _ =>
      advance 1
      if 0 < depth then return .text [')'] true :: (← expression inner (depth - 1) fuel)
      else if (← peekJoined) = some ')' then
        advance 1
        return []
      else return .text [')'] true :: (← expression inner depth fuel)
    | c :: _ =>
      advance 1
      return .text [c] true :: (← expression inner depth fuel)

end

end SourceJar.Tool.Shell
