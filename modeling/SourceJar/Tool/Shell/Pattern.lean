import SourceJar.Tool.Basic

/-!
Patterns of a shell, and the file names that match them.

A star stands for any text, a question mark for any character, and a list in square brackets for one of
its characters, or with a `!` for one of the others. In quotes these mean themselves.
-/

namespace SourceJar.Tool.Shell

/-- A character of a word, and whether it is in quotes. -/
abbrev Marked := Char × Bool

/-- A member of a list in square brackets. -/
inductive Member where
  | range (first last : Char)
  | kind (name : String)
  deriving DecidableEq, Repr

/-- What a pattern is made of. -/
inductive Atom where
  | char (c : Char)
  | anyChar
  | anyText
  | oneOf (negated : Bool) (members : List Member)
  deriving DecidableEq, Repr

abbrev Pattern := List Atom

/-- Whether a character is of a kind with a name. -/
def isOfKind (name : String) (c : Char) : Bool :=
  let shows := isPrintable c && c ≠ ' '
  match name with
  | "alnum" => c.isAlphanum
  | "alpha" => c.isAlpha
  | "blank" => c = ' ' || c = '\t'
  | "cntrl" => c.toNat < 0x20 || c.toNat = 0x7F
  | "digit" => c.isDigit
  | "graph" => shows
  | "lower" => c.isLower
  | "print" => isPrintable c
  | "punct" => shows && !c.isAlphanum
  | "space" => isSpace c
  | "upper" => c.isUpper
  | "xdigit" => (digitIn? 16 c).isSome
  | _ => false

def Member.holds (c : Char) : Member → Bool
  | .range first last => first ≤ c && c ≤ last
  | .kind name => isOfKind name c

namespace Pattern

/-- The name of a kind at the start of a text after its bracket, and what follows it. -/
def kindName? (text : List Marked) : Option (String × List Marked) :=
  match text with
  | ('[', false) :: (':', _) :: rest =>
    let name := rest.takeWhile fun (c, _) => c.isLower
    match rest.drop name.length with
    | (':', _) :: (']', _) :: after => some (String.ofList (name.map (·.1)), after)
    | _ => none
  | _ => none

/-- Reads the members of a list up to its bracket, which can be the first of them; what follows them,
unless the list has no end. -/
def members : (fuel : Nat) → (first : Bool) → List Marked → Option (List Member × List Marked)
  | 0, _, _ => none
  | _, _, [] => none
  | fuel + 1, first, (c, quoted) :: rest =>
    if c = ']' && !quoted && !first then some ([], rest)
    else
      match kindName? ((c, quoted) :: rest) with
      | some (name, after) => (members fuel false after).map fun (ms, after) => (.kind name :: ms, after)
      | none =>
        match rest with
        | ('-', false) :: (last, lastQuoted) :: after =>
          if last = ']' && !lastQuoted then
            (members fuel false rest).map fun (ms, after) => (.range c c :: ms, after)
          else (members fuel false after).map fun (ms, after) => (.range c last :: ms, after)
        | _ => (members fuel false rest).map fun (ms, after) => (.range c c :: ms, after)

/-- Reads a list after its opening bracket. -/
def list? (text : List Marked) : Option (Atom × List Marked) :=
  let (negated, text) := match text with
    | ('!', false) :: rest => (true, rest)
    | _ => (false, text)
  (members text.length true text).map fun (ms, after) => (.oneOf negated ms, after)

/-- The pattern that a word spells. Each step takes a character or more, so `fuel` is their number. -/
def atoms : (fuel : Nat) → List Marked → Pattern
  | 0, _ => []
  | _, [] => []
  | fuel + 1, (c, quoted) :: rest =>
    if quoted then .char c :: atoms fuel rest
    else if c = '*' then .anyText :: atoms fuel rest
    else if c = '?' then .anyChar :: atoms fuel rest
    else if c = '[' then
      match list? rest with
      | some (atom, after) => atom :: atoms fuel after
      | none => .char c :: atoms fuel rest
    else .char c :: atoms fuel rest

/-- The pattern that a word spells. -/
def ofMarked (text : List Marked) : Pattern := atoms text.length text

/-- A text and all that is left of it when characters are taken off its start. -/
def tails : List Char → List (List Char)
  | [] => [[]]
  | c :: rest => (c :: rest) :: tails rest

/-- Whether a text matches a pattern. -/
def isMatch : Pattern → List Char → Bool
  | [], text => text.isEmpty
  | .anyText :: rest, text => (tails text).any (isMatch rest)
  | _ :: _, [] => false
  | .char c :: rest, d :: text => c = d && isMatch rest text
  | .anyChar :: rest, _ :: text => isMatch rest text
  | .oneOf negated ms :: rest, d :: text => ms.any (Member.holds d) != negated && isMatch rest text

/-- Whether a pattern stands for more than one text. -/
def isOpen (p : Pattern) : Bool :=
  p.any fun
    | .char _ => false
    | _ => true

/-- A text without the part at its start or its end that matches, as short or as long as possible. If
zeros part the text, a match goes no further than to the next of them, and cuts that are tried from
the start are tried in the first part only. -/
def trim (p : Pattern) (atEnd longest : Bool) (text : List Char) : List Char :=
  let part (text : List Char) : List Char := text.takeWhile (· ≠ '\x00')
  let first := List.range ((part text).length + 1)
  let all := List.range (text.length + 1)
  let found :=
    if atEnd then
      (if longest then first else all.reverse).find? fun n => isMatch p (part (text.drop n))
    else
      (if longest then all.reverse else first).find? fun n => isMatch p (part (text.take n))
  match found with
  | none => text
  | some n => if atEnd then text.take n else text.drop n

/-! ## File names -/

/-- The parts of a word between slashes. -/
def between : List Marked → List (List Marked)
  | [] => [[]]
  | (c, quoted) :: rest =>
    match between rest with
    | [] => [[(c, quoted)]]
    | part :: more => if c = '/' then [] :: part :: more else ((c, quoted) :: part) :: more

/-- The names in a directory, by its path. -/
def namesAt (fs : FileSystem) (directory : String) : List String :=
  match fs.directoryPlace (pathOf (if directory = "" then "." else directory)) with
  | .ok place => (fs.namesIn place).map ofOctets
  | .error _ => []

/-- Whether a path leads to something, links not followed. -/
def isTaken (fs : FileSystem) (path : String) : Bool :=
  match fs.locate false (pathOf path) with
  | .ok (.taken ..) => true
  | _ => false

/-- The paths that start with `start` and go on as parts say. -/
def pathsBelow (fs : FileSystem) : (start : String) → List (List Marked) → List String
  | start, [] => if isTaken fs start then [start] else []
  | start, part :: rest =>
    let p := ofMarked part
    let slash := if rest.isEmpty then "" else "/"
    if isOpen p then
      let names := namesAt fs start
      let hidden := p.head? = some (.char '.')
      let candidates := if hidden then "." :: ".." :: names
        else names.filter fun name => name.toList.head? ≠ some '.'
      (candidates.filter fun name => isMatch p name.toList).flatMap fun name =>
        pathsBelow fs (start ++ name ++ slash) rest
    else pathsBelow fs (start ++ String.ofList (part.map (·.1)) ++ slash) rest

/-- The paths that match a word, in the order of their bytes. -/
def paths (fs : FileSystem) (word : List Marked) : List String :=
  if isOpen (ofMarked word) then
    (pathsBelow fs "" (between word)).mergeSort fun a b => !FileSystem.bytesBefore (octets b) (octets a)
  else []

end Pattern

end SourceJar.Tool.Shell
