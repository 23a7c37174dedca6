/-!
Shell scripts as trees.

A word is made of parts: text, and places where a parameter, the output of commands or the value of an
expression goes. Text in quotes is neither split nor matched against file names, and the same holds
for what goes in place of a part in quotes. The body of a text in place of a file is kept apart, under
a number, because it follows the line that asks for it.
-/

namespace SourceJar.Tool.Shell

def isNameStart (c : Char) : Bool := c.isAlpha || c == '_'

def isNameChar (c : Char) : Bool := c.isAlphanum || c == '_'

/-- Whether a text is the name of a parameter or a function. -/
def isName (text : List Char) : Bool :=
  match text with
  | c :: rest => isNameStart c && rest.all isNameChar
  | [] => false

/-- What is done with an unset parameter, or with one that is set. -/
inductive Fallback where
  /-- A word in its place. -/
  | use
  /-- A word in its place, which it is also set to. -/
  | assign
  /-- A complaint. -/
  | complain
  /-- A word in place of a set one, and nothing in place of an unset one. -/
  | replace
  deriving DecidableEq, Repr

/-- How a redirection opens a file. -/
inductive Opening where
  | read
  /-- For writing, from its start. -/
  | write
  /-- For writing, even if the shell is set to keep files. -/
  | replace
  | append
  | both
  deriving DecidableEq, Repr

mutual

/-- A part of a word. -/
inductive Part where
  | text (text : List Char) (quoted : Bool)
  | parameter (name : String) (change : Change) (quoted : Bool)
  | output (script : List Tree) (quoted : Bool)
  | value (expression : List Part) (quoted : Bool)

/-- How the value of a parameter is changed. -/
inductive Change where
  | keep
  | length
  /-- `orEmpty`: an empty value counts as unset. -/
  | fallback (kind : Fallback) (orEmpty : Bool) (word : List Part)
  /-- A pattern is taken away from the start or the end, as short or as long as possible. -/
  | trim (atEnd longest : Bool) (pattern : List Part)
  /-- No change that there is. -/
  | invalid

/-- A redirection of a descriptor. -/
inductive Redirection where
  | file (descriptor : Nat) (opening : Opening) (target : List Part)
  | copy (descriptor : Nat) (source : List Part)
  /-- A text by its number. -/
  | here (descriptor : Nat) (index : Nat)

/-- A command. -/
inductive Tree where
  | simple (line : Nat) (assignments : List (String × List Part)) (words : List (List Part))
    (redirections : List Redirection)
  | pipeline (commands : List Tree)
  | background (command : Tree)
  | redirected (line : Nat) (command : Tree) (redirections : List Redirection)
  | subshell (line : Nat) (body : Tree) (redirections : List Redirection)
  | negated (command : Tree)
  | both (first second : Tree)
  | either (first second : Tree)
  | sequence (commands : List Tree)
  | choice (condition yes : Tree) (no : Option Tree)
  /-- `sense`: the status of the condition with which the loop goes on is success. -/
  | loop (sense : Bool) (condition body : Tree)
  | each (line : Nat) (name : String) (words : Option (List (List Part))) (body : Tree)
  | select (line : Nat) (subject : List Part) (branches : List (List (List Part) × Option Tree))
  | definition (name : String) (body : Tree)

end

/-- A word. -/
abbrev Word := List Part

end SourceJar.Tool.Shell
