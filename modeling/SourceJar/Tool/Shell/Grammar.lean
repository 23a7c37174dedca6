import SourceJar.Tool.Shell.Reader

/-!
The grammar of shell scripts: tokens, commands and rows of commands.
-/

namespace SourceJar.Tool.Shell

/-! ## Tokens -/

/-- Goes on behind blanks, escaped line ends and comments. -/
def skipBlanks : (fuel : Nat) → Read Unit
  | 0 => return
  | fuel + 1 => do
    match ← peekJoined with
    | some ' ' =>
      advance 1
      skipBlanks fuel
    | some '\t' =>
      advance 1
      skipBlanks fuel
    | some '#' => advance ((← get).rest.takeWhile (· ≠ '\n')).length
    | _ => return

/-- The symbols of redirections, longer ones first. -/
def redirectionSymbols : List String := ["<<-", "<<", "<&", "<>", "<", ">>", ">|", ">&", ">"]

/-- A redirection at the start of a text: its descriptor, its symbol and its length. -/
def redirection? (rest : List Char) : Option (Option Nat × String × Nat) :=
  let symbol? (rest : List Char) : Option String :=
    redirectionSymbols.find? fun symbol => symbol.toList.isPrefixOf rest
  match symbol? rest with
  | some symbol => some (none, symbol, symbol.length)
  | none =>
    match rest with
    | d :: after =>
      if d.isDigit then
        (symbol? after).map fun symbol => (some (d.toNat - 48), symbol, symbol.length + 1)
      else none
    | [] => none

def isQuotedText : Part → Bool
  | .text _ quoted => quoted
  | _ => false

/-- Reads the next token, without regard to keywords. -/
def rawToken (inner : Extent → Read (List Tree)) : Read Token := do
  skipBlanks (← enough)
  match redirection? (← get).rest with
  | some (descriptor, symbol, length) =>
    advance length
    return .redirection descriptor symbol
  | none =>
    let operator (text : String) : Read Token := do
      advance text.length
      return .operator text
    let doubled (c : Char) : Read Token := do
      advance 1
      if (← peekJoined) = some c then
        advance 1
        return .operator (String.ofList [c, c])
      else return .operator (String.singleton c)
    match ← peek with
    | none => return .ending
    | some '\n' =>
      advance 1
      return .newline
    | some '&' => doubled '&'
    | some '|' => doubled '|'
    | some ';' => doubled ';'
    | some '(' => operator "("
    | some ')' => operator ")"
    | some _ =>
      let parts ← bare inner false (← enough)
      return .word (mergeTexts parts) (parts.any isQuotedText)

/-- Reads the mark of a text in place of a file; also whether some of it is in quotes. -/
def markText : (fuel : Nat) → Read (List Char × Bool)
  | 0 => return ([], false)
  | fuel + 1 => do
    match (← get).rest with
    | [] => return ([], false)
    | '\\' :: c :: _ =>
      advance 2
      let (more, quoted) ← markText fuel
      return if c = '\n' then (more, quoted) else (c :: more, true)
    | '\'' :: _ =>
      advance 1
      let text ← singleQuoted
      return (text ++ (← markText fuel).1, true)
    | '"' :: rest =>
      let text := rest.takeWhile (· ≠ '"')
      if text.length = rest.length then fault "Unterminated quoted string"
      advance (text.length + 2)
      return (text ++ (← markText fuel).1, true)
    | c :: _ =>
      if " \t\n;&()<>|".toList.contains c then return ([], false)
      else
        advance 1
        let (more, quoted) ← markText fuel
        return (c :: more, quoted)

/-- Whether a line goes on in the next one. -/
def isJoined (line : List Char) : Bool := (line.reverse.takeWhile (· == '\\')).length % 2 = 1

/-- The lines up to a mark; `continued`: the first one belongs to the line before it. -/
def linesUpTo (p : PendingText) : (fuel : Nat) → (continued : Bool) → Read (List Char)
  | 0, _ => return []
  | fuel + 1, continued => do
    let rest := (← get).rest
    if rest.isEmpty then return []
    else
      let line := rest.takeWhile (· ≠ '\n')
      let ended := line.length < rest.length
      advance (line.length + 1)
      let shown := if p.stripTabs && !continued then line.dropWhile (· == '\t') else line
      if !continued && shown = p.mark then return []
      else
        return shown ++ (if ended then ['\n'] else []) ++
          (← linesUpTo p fuel (p.expands && isJoined line))

/-- Reads a text in place of a file. -/
def readText (inner : Extent → Read (List Tree)) (p : PendingText) : Read Unit := do
  let line := (← get).line
  let text ← linesUpTo p (← enough) false
  let word ←
    if p.expands then
      let outer ← get
      set { outer with
        rest := text, line, pushed := none, pending := [], opened := outer.heldAliases }
      let word ← inDouble inner .text false false (text.length + 2)
      modify fun r => { outer with texts := r.texts, nextIndex := r.nextIndex }
      pure (mergeTexts word)
    else pure [.text text true]
  modify fun r => { r with texts := (p.index, word) :: r.texts }

/-- Reads the texts in place of files that follow a line. -/
def readTexts (inner : Extent → Read (List Tree)) : Read Unit := do
  let pending := (← get).pending
  modify fun r => { r with pending := [] }
  pending.forM (readText inner)

/-- Takes back a token. -/
def push (t : Token) : Read Unit := modify fun r => { r with pushed := some t }

/-- The next token, without regard to keywords, or the one that was taken back. -/
def pushedOrRaw (inner : Extent → Read (List Tree)) : Read Token := do
  match (← get).pushed with
  | some t =>
    modify fun r => { r with pushed := none }
    return t
  | none => rawToken inner

/-- The first token behind line ends, and how much was left before it; `left` is that for a token. -/
def behindLines (inner : Extent → Read (List Tree)) :
    (fuel left : Nat) → Token → Read (Token × Nat)
  | 0, left, t => return (t, left)
  | fuel + 1, left, t => do
    match t with
    | .newline =>
      readTexts inner
      let left := (← get).rest.length
      behindLines inner fuel left (← rawToken inner)
    | _ => return (t, left)

/-- What the next token can be. -/
structure Wanted where
  /-- Whether line ends before it are left out. -/
  behindLines : Bool := false
  keywords : Bool := false
  aliases : Bool := false

namespace Wanted

/-- A word that means itself. -/
def word : Wanted := {}

/-- The start of a command. -/
def command : Wanted := { keywords := true, aliases := true }

/-- The start of a command, perhaps in another line. -/
def laterCommand : Wanted := { command with behindLines := true }

/-- The start of a branch of a `case`. -/
def branch : Wanted := { behindLines := true, keywords := true }

end Wanted

/-- The next token. Where aliases count, the text of an alias is read in its place. A keyword is a
keyword before it is an alias. Each step opens an alias or reads a word. -/
def nextWithin (inner : Extent → Read (List Tree)) : (fuel : Nat) → Wanted → Read Token
  | 0, _ => pushedOrRaw inner
  | fuel + 1, w => do
    let left := (← get).rest.length
    let t ← pushedOrRaw inner
    let (t, left) ← if w.behindLines then behindLines inner (← enough) left t else pure (t, left)
    match t with
    | .word [.text text false] _ =>
      let r ← get
      let name := String.ofList text
      if w.keywords && keywords.contains name then return .keyword name
      else
        match if w.aliases || r.passedBlank left then r.alias? name else none with
        | none => return t
        | some text =>
          set (r.openAlias name text.toList)
          nextWithin inner fuel { w with aliases := true }
    | _ => return t

def next (inner : Extent → Read (List Tree)) (w : Wanted) : Read Token := do
  nextWithin inner (← enough) w

def unexpected {α : Type} (t : Token) : Read α := fault s!"{t.name} unexpected"

def unexpectedFor {α : Type} (t : Token) (wanted : String) : Read α :=
  fault s!"{t.name} unexpected (expecting {wanted})"

/-- Goes on behind a keyword. -/
def expectKeyword (inner : Extent → Read (List Tree)) (text : String) (w : Wanted) : Read Unit := do
  let t ← next inner w
  unless t.isKeyword text do unexpectedFor t (Token.keyword text).name

/-! ## Commands -/

/-- A row of commands as one. -/
def asOne (commands : List Tree) : Tree :=
  match commands with
  | [command] => command
  | _ => .sequence commands

/-- Reads what a redirection leads to. -/
def redirectionOf (inner : Extent → Read (List Tree)) (descriptor : Option Nat) (symbol : String) :
    Read Redirection := do
  if symbol = "<<" || symbol = "<<-" then
    skipBlanks (← enough)
    let before := (← get).rest.length
    let (mark, quoted) ← markText (← enough)
    if (← get).rest.length = before then unexpected (← rawToken inner)
    let index := (← get).nextIndex
    let p : PendingText := ⟨index, mark, symbol = "<<-", !quoted⟩
    modify fun r => { r with pending := r.pending ++ [p], nextIndex := index + 1 }
    return .here (descriptor.getD 0) index
  else
    match ← next inner .word with
    | .word target _ =>
      let reading := symbol.toList.head? = some '<'
      let descriptor := descriptor.getD (if reading then 0 else 1)
      if symbol = "<&" || symbol = ">&" then return .copy descriptor target
      else
        return .file descriptor
          (if symbol = "<" then .read else if symbol = "<>" then .both
            else if symbol = ">>" then .append else if symbol = ">|" then .replace else .write) target
    | t => unexpected t

/-- The redirections that follow a command. -/
def redirections (inner : Extent → Read (List Tree)) : (fuel : Nat) → Read (List Redirection)
  | 0 => return []
  | fuel + 1 => do
    match ← next inner .command with
    | .redirection descriptor symbol =>
      let first ← redirectionOf inner descriptor symbol
      return first :: (← redirections inner fuel)
    | t =>
      push t
      return []

/-- The name and the value of a word that is an assignment. -/
def assignment? (word : Word) : Option (String × Word) :=
  match word with
  | .text text false :: rest =>
    match Split.cutFirst? '=' text with
    | some (name, value) =>
      if isName name then
        some (String.ofList name, if value.isEmpty then rest else .text value false :: rest)
      else none
    | none => none
  | _ => none

/-- The names of functions that cannot be defined. -/
def specialBuiltins : List String :=
  [".", ":", "break", "continue", "eval", "exec", "exit", "export", "local", "readonly", "return", "set",
    "shift", "times", "trap", "unset"]

/-- The words, the assignments before them and the redirections of a simple command. -/
structure SimpleParts where
  assignments : List (String × Word) := []
  words : List Word := []
  redirections : List Redirection := []

/-- Reads the rest of a simple command. An open bracket after a single word defines a function, whose
body `body` reads. -/
def simpleRest (inner : Extent → Read (List Tree)) (body : Read Tree) (line : Nat) :
    (fuel : Nat) → SimpleParts → Read Tree
  | 0, p => return .simple line p.assignments p.words p.redirections
  | fuel + 1, p => do
    let finish (t : Token) : Read Tree := do
      push t
      return .simple line p.assignments p.words p.redirections
    match ← next inner { aliases := p.words.isEmpty } with
    | .word word _ =>
      match if p.words.isEmpty then assignment? word else none with
      | some pair => simpleRest inner body line fuel { p with assignments := p.assignments ++ [pair] }
      | none => simpleRest inner body line fuel { p with words := p.words ++ [word] }
    | .redirection descriptor symbol =>
      let r ← redirectionOf inner descriptor symbol
      simpleRest inner body line fuel { p with redirections := p.redirections ++ [r] }
    | .operator "(" =>
      match p with
      | ⟨[], [word], []⟩ =>
        let t ← next inner .word
        unless t.isOperator ")" do unexpectedFor t "\")\""
        match word with
        | [.text name false] =>
          let name := String.ofList name
          if !isName name.toList || specialBuiltins.contains name then fault "Bad function name"
          push (← next inner .laterCommand)
          return .definition name (← body)
        | _ => fault "Bad function name"
      | _ => finish (.operator "(")
    | t => finish t

/-- The branches of an `if` after its first condition. -/
def choiceRest (inner : Extent → Read (List Tree)) : (fuel : Nat) → Tree → Read Tree
  | 0, condition => return condition
  | fuel + 1, condition => do
    expectKeyword inner "then" .word
    let yes := asOne (← inner .body)
    let t ← next inner .word
    if t.isKeyword "elif" then
      let other := asOne (← inner .body)
      return .choice condition yes (some (← choiceRest inner fuel other))
    else if t.isKeyword "else" then return .choice condition yes (some (asOne (← inner .body)))
    else
      push t
      return .choice condition yes none

/-- The words of a `for`, and the token after them. -/
def forWords (inner : Extent → Read (List Tree)) : (fuel : Nat) → Read (List Word × Token)
  | 0 => return ([], .ending)
  | fuel + 1 => do
    match ← next inner .word with
    | .word word _ =>
      let (words, t) ← forWords inner fuel
      return (word :: words, t)
    | t => return ([], t)

/-- The word that a token is; a keyword is one too where words are wanted. -/
def wordOf (t : Token) : Word :=
  match t with
  | .word word _ => word
  | .keyword text => [.text text.toList false]
  | _ => []

/-- The patterns of a branch, and the token after them. -/
def patterns (inner : Extent → Read (List Tree)) : (fuel : Nat) → Token → Read (List Word × Token)
  | 0, t => return ([], t)
  | fuel + 1, t => do
    let pattern := wordOf t
    let after ← next inner .word
    if after.isOperator "|" then
      let (others, after) ← patterns inner fuel (← next inner .word)
      return (pattern :: others, after)
    else return ([pattern], after)

/-- The branches of a `case`, up to its end. -/
def branches (inner : Extent → Read (List Tree)) :
    (fuel : Nat) → Token → Read (List (List Word × Option Tree))
  | 0, _ => return []
  | fuel + 1, t => do
    if t.isKeyword "esac" then return []
    else
      let first ← if t.isOperator "(" then next inner .word else pure t
      let (ps, after) ← patterns inner fuel first
      unless after.isOperator ")" do unexpectedFor after "\")\""
      let body ← inner .optional
      let branch := (ps, if body.isEmpty then none else some (asOne body))
      let t ← next inner .branch
      if t.isKeyword "esac" then return [branch]
      else if t.isOperator ";;" then
        return branch :: (← branches inner fuel (← next inner .branch))
      else unexpectedFor t "\";;\""

/-- Reads a `for` after its keyword. -/
def forRest (inner : Extent → Read (List Tree)) (line : Nat) : Read Tree := do
  let name ← match ← next inner .word with
    | .word [.text name false] _ => pure name
    | _ => fault "Bad for loop variable"
  unless isName name do fault "Bad for loop variable"
  let t ← next inner .laterCommand
  let words ←
    if t.isKeyword "in" then
      let (words, t) ← forWords inner (← enough)
      match t with
      | .newline => readTexts inner
      | _ => unless t.isOperator ";" do unexpected t
      pure (some words)
    else
      unless t.isOperator ";" do push t
      pure none
  expectKeyword inner "do" .laterCommand
  let body := asOne (← inner .body)
  expectKeyword inner "done" .word
  return .each line (String.ofList name) words body

/-- Reads a `case` after its keyword. -/
def caseRest (inner : Extent → Read (List Tree)) (line : Nat) : Read Tree := do
  match ← next inner .word with
  | .word subject _ =>
    expectKeyword inner "in" .laterCommand
    return .select line subject (← branches inner (← enough) (← next inner .branch))
  | t => unexpectedFor t "word"

/-- Reads a command. -/
def command (inner : Extent → Read (List Tree)) : (fuel : Nat) → Read Tree
  | 0 => fault "end of file unexpected"
  | fuel + 1 => do
    let line := (← get).line
    let withRedirections (tree : Tree) : Read Tree := do
      let rs ← redirections inner (← enough)
      return if rs.isEmpty then tree else .redirected line tree rs
    let body (ending : String) : Read Tree := do
      let tree := asOne (← inner .body)
      expectKeyword inner ending .word
      return tree
    let simple (t : Token) : Read Tree := do
      push t
      simpleRest inner (command inner fuel) line (← enough) {}
    match ← next inner .word with
    | .keyword "if" =>
      let condition := asOne (← inner .body)
      let tree ← choiceRest inner (← enough) condition
      expectKeyword inner "fi" .word
      withRedirections tree
    | .keyword "while" =>
      let condition ← body "do"
      withRedirections (.loop true condition (← body "done"))
    | .keyword "until" =>
      let condition ← body "do"
      withRedirections (.loop false condition (← body "done"))
    | .keyword "for" => withRedirections (← forRest inner line)
    | .keyword "case" => withRedirections (← caseRest inner line)
    | .keyword "\x7b" => withRedirections (← body "\x7d")
    | .operator "(" =>
      let tree := asOne (← inner .body)
      let t ← next inner .word
      unless t.isOperator ")" do unexpectedFor t "\")\""
      return .subshell line tree (← redirections inner (← enough))
    | .word word quoted => simple (.word word quoted)
    | .redirection descriptor symbol => simple (.redirection descriptor symbol)
    | t => unexpected t

/-- Reads the commands of a pipeline after the first. -/
def pipelineRest (inner : Extent → Read (List Tree)) : (fuel : Nat) → Read (List Tree)
  | 0 => return []
  | fuel + 1 => do
    let t ← next inner .word
    if t.isOperator "|" then
      push (← next inner .laterCommand)
      let first ← command inner (← enough)
      return first :: (← pipelineRest inner fuel)
    else
      push t
      return []

/-- Reads a pipeline; keywords have been recognized in its first token. -/
def pipeline (inner : Extent → Read (List Tree)) : Read Tree := do
  let t ← next inner .word
  let negated := t.isKeyword "!"
  if negated then push (← next inner .command) else push t
  let first ← command inner (← enough)
  let rest ← pipelineRest inner (← enough)
  let tree := if rest.isEmpty then first else .pipeline (first :: rest)
  return if negated then .negated tree else tree

/-- Reads the pipelines that depend on the status of the one before. -/
def andOrRest (inner : Extent → Read (List Tree)) : (fuel : Nat) → Tree → Read Tree
  | 0, first => return first
  | fuel + 1, first => do
    let t ← next inner .word
    if t.isOperator "&&" || t.isOperator "||" then
      push (← next inner .laterCommand)
      let second ← pipeline inner
      andOrRest inner fuel (if t.isOperator "&&" then .both first second else .either first second)
    else
      push t
      return first

/-- Reads a row of commands; `started`: one has been read. -/
def row (inner : Extent → Read (List Tree)) (extent : Extent) :
    (fuel : Nat) → (started : Bool) → Read (List Tree)
  | 0, _ => return []
  | fuel + 1, started => do
    match ← next inner { Wanted.command with behindLines := extent ≠ .line } with
    | .newline =>
      readTexts inner
      return []
    | .ending =>
      readTexts inner
      push .ending
      return []
    | t =>
      push t
      if t.endsBody && (extent = .optional || (extent = .body && started)) then return []
      else
        let tree ← andOrRest inner (← enough) (← pipeline inner)
        let t ← next inner .word
        let tree := if t.isOperator "&" then .background tree else tree
        match t with
        | .ending =>
          readTexts inner
          push .ending
          return [tree]
        | .newline =>
          push .newline
          return tree :: (← row inner extent fuel true)
        | _ =>
          if t.isOperator "&" || t.isOperator ";" then return tree :: (← row inner extent fuel true)
          else if extent = .line then unexpected t
          else
            push t
            return [tree]

/-- Reads a row of commands; `depth` bounds how deep they nest. -/
def commands : (depth : Nat) → Extent → Read (List Tree)
  | 0, _ => fault "end of file unexpected"
  | depth + 1, extent => do row (commands depth) extent (← enough) false

/-- Whether nothing is left but what is skipped before the end. -/
def atEnd : Read Bool := do
  match (← get).pushed with
  | some .ending => return true
  | _ => return false

/-- Reads the commands of the next line; none at the end of the script. -/
def Reader.nextLine (r : Reader) : Except SyntaxFault (Option (List Tree) × Reader) := do
  let (trees, r) ← (commands r.steps .line).run { r with pushed := none }
  match r.pushed with
  | some .ending => return (if trees.isEmpty then none else some trees, r)
  | _ => return (some trees, r)

end SourceJar.Tool.Shell
