import SourceJar.Toml.Scalar

/-!
Reading TOML documents.

A document is a row of lines; each holds a pair, a header or nothing, and may end in a comment. Values
nest less than eighty deep, and keys have fewer than eighty parts. What is wrong with a document that
cannot be read is not told.
-/

namespace SourceJar.Toml

/-- Values and keys have fewer levels than this. -/
def maxDepth : Nat := 80

/-- Whether a character may stand in a key without quotes. -/
def isBareKey (c : Char) : Bool := c.isAlphanum || c == '_' || c == '-'

/-- Reads one part of a key. -/
def keyPart? (text : List Char) : Option (String × List Char) :=
  match text with
  | '"' :: rest => (basic? (rest.length + 1) rest).map fun (k, rest) => (String.ofList k, rest)
  | '\'' :: rest => (literal? rest).map fun (k, rest) => (String.ofList k, rest)
  | _ =>
    let bare := text.takeWhile isBareKey
    if bare.isEmpty then none else some (String.ofList bare, text.drop bare.length)

/-- Reads the parts of a key, with dots and blanks between them. -/
def keyParts? : Nat → List Char → Option (List String × List Char)
  | 0, _ => none
  | fuel + 1, text => do
    let (part, rest) ← keyPart? (text.dropWhile isSpace)
    match rest.dropWhile isSpace with
    | '.' :: rest => do
      let (parts, rest) ← keyParts? fuel rest
      return (part :: parts, rest)
    | rest => return ([part], rest)

/-- Reads a key, and the blanks around it. -/
def key? (text : List Char) : Option (Key × List Char) := do
  let (parts, rest) ← keyParts? (maxDepth - 1) text
  let last ← parts.getLast?
  return (⟨parts.dropLast, last⟩, rest)

/-- Passes over a comment. -/
def comment? (text : List Char) : Option (List Char) :=
  match text with
  | '#' :: rest =>
    let after := rest.dropWhile isPlain
    if after.isEmpty ∨ (lineEnd? after).isSome then some after else none
  | _ => some text

/-- Passes over blanks, line ends and comments. -/
def skipFiller? : Nat → List Char → Option (List Char)
  | 0, text => some text
  | fuel + 1, text =>
    match skipBlank text with
    | '#' :: rest => do skipFiller? fuel (← comment? ('#' :: rest))
    | rest => some rest

mutual

/-- Reads a value at a depth. -/
def value? : (fuel depth : Nat) → List Char → Option (Toml × List Char)
  | 0, _, _ => none
  | fuel + 1, depth, text =>
    match text with
    | '[' :: rest => do
      guard (depth + 1 < maxDepth)
      let (items, rest) ← items? fuel (depth + 1) rest
      return (.array items, rest)
    | c :: rest =>
      if c = Char.ofNat 0x7B then do
        guard (depth + 1 < maxDepth)
        match rest.dropWhile isSpace with
        | d :: after =>
          if d = Char.ofNat 0x7D then return (.table .inlined [], after)
          else do
            let (pairs, rest) ← pairs? fuel (depth + 1) (d :: after)
            return (.table .inlined (← ofPairs pairs), rest)
        | [] => none
      else if c = '"' ∨ c = '\'' then
        (string? text).map fun (text, rest) => (.string text, rest)
      else scalar? text
    | [] => none

/-- Reads the items of an array up to its closing bracket. -/
def items? : (fuel depth : Nat) → List Char → Option (List Toml × List Char)
  | 0, _, _ => none
  | fuel + 1, depth, text => do
    let text ← skipFiller? text.length text
    match text with
    | ']' :: rest => return ([], rest)
    | _ =>
      let (first, rest) ← value? fuel depth text
      match ← skipFiller? rest.length rest with
      | ',' :: rest => do
        let (others, rest) ← items? fuel depth rest
        return (first :: others, rest)
      | ']' :: rest => return ([first], rest)
      | _ => none

/-- Reads the pairs of an inline table up to its closing brace. -/
def pairs? : (fuel depth : Nat) → List Char → Option (List (Key × Toml) × List Char)
  | 0, _, _ => none
  | fuel + 1, depth, text => do
    let (key, rest) ← key? text
    let rest ← expect? '=' rest
    let (value, rest) ← value? fuel depth (rest.dropWhile isSpace)
    match rest.dropWhile isSpace with
    | ',' :: rest => do
      let (others, rest) ← pairs? fuel depth rest
      return ((key, value) :: others, rest)
    | c :: rest => if c = Char.ofNat 0x7D then some ([(key, value)], rest) else none
    | [] => none

end

/-- Reads a header after its first bracket. -/
def header? (text : List Char) : Option (Line × List Char) :=
  match text with
  | '[' :: rest => do
    let (key, rest) ← key? rest
    return (.itemHeader key, ← expect? ']' (← expect? ']' rest))
  | _ => do
    let (key, rest) ← key? text
    return (.header key, ← expect? ']' rest)

/-- Reads a pair. -/
def pair? (text : List Char) : Option (Line × List Char) := do
  let (key, rest) ← key? text
  let rest ← expect? '=' rest
  let (value, rest) ← value? (2 * rest.length + 2) 0 (rest.dropWhile isSpace)
  return (.pair key value, rest)

/-- Reads what is left of a line after its content. -/
def lineRest? (text : List Char) : Option (List Char) := do
  let rest ← comment? (text.dropWhile isSpace)
  if rest.isEmpty then some [] else lineEnd? rest

/-- Reads the lines of a document. -/
def lines? : Nat → List Char → Option (List Line)
  | 0, _ => some []
  | fuel + 1, text =>
    match text.dropWhile isSpace with
    | [] => some []
    | '[' :: rest => do
      let (line, rest) ← header? rest
      let others ← lines? fuel (← lineRest? rest)
      return line :: others
    | c :: rest =>
      if c = '#' ∨ c = '\n' ∨ c = '\r' then do lines? fuel (← lineRest? (c :: rest))
      else do
        let (line, rest) ← pair? (c :: rest)
        let others ← lines? fuel (← lineRest? rest)
        return line :: others

/-- The fields of a document, if it can be read. A byte order mark in front does not count. -/
def read? (text : String) : Option Fields := do
  let text := match text.toList with
    | '\uFEFF' :: rest => rest
    | text => text
  ofLines (← lines? (text.length + 1) text)

end SourceJar.Toml
