import SourceJar.Tool.Escape
import SourceJar.Tool.Format
import SourceJar.Tool.Quoting

/-!
`printf`: writes its arguments by a format, which is used again while arguments are left.

An argument that is no number counts as the number at its start and makes the tool fail, but only a
fault of the format ends it. Missing arguments count as empty.
-/

namespace SourceJar.Tool.Printf

open Format (Layout Directive Measure)

/-- What a format is made of. -/
inductive Piece where
  | text (text : List Char)
  /-- The end of all output. -/
  | stop
  /-- An argument with its escapes undone. -/
  | escaped
  /-- An argument in quotes that a shell undoes. -/
  | quoted
  | convert (directive : Directive)
  /-- Like `convert`, but a fault once the width and the precision are known. -/
  | invalid (directive : Directive)
  | fault (message : String)

/-! ## Escapes -/

def missingDigits : String := "missing hexadecimal number in escape"

/-- A character by its number; one beyond the first 128 is written as an escape. -/
def characterText (n : Nat) : List Char :=
  if n < 0x80 then [Char.ofNat n]
  else if n < 0x10000 then '\\' :: 'u' :: (digitsIn 16 4 n).map Char.toUpper
  else '\\' :: 'U' :: (digitsIn 16 8 n).map Char.toUpper

/-- Reads the number of a character after its letter. -/
def characterPiece (letter : Char) (rest : List Char) : Piece × List Char :=
  let count := if letter = 'u' then 4 else 8
  let (digits, after) := Escape.takeDigits 16 count rest
  if digits.length < count then (.fault missingDigits, rest)
  else
    let n := digitsValue 16 digits
    if 0xD800 ≤ n && n ≤ 0xDFFF then
      (.fault (String.ofList ("invalid universal character name \\".toList ++
        letter :: digitsIn 16 count n)), after)
    else (.text (characterText n), after)

/-- Reads an escape after its backslash; `zero`: a zero can stand before three octal digits. -/
def escapePiece (zero : Bool) (text : List Char) : Piece × List Char :=
  match text with
  | [] => (.text ['\\'], [])
  | c :: rest =>
    if c = 'x' then
      match Escape.takeDigits 16 2 rest with
      | ([], _) => (.fault missingDigits, rest)
      | (digits, rest) => (.text [Escape.byteOf 16 digits], rest)
    else if c = 'c' then (.stop, rest)
    else if c = '"' then (.text ['"'], rest)
    else if c = 'u' || c = 'U' then characterPiece c rest
    else
      match if zero then Escape.octalAfterZero? text else Escape.octal? text with
      | some (byte, rest) => (.text [byte], rest)
      | none =>
        match Escape.control? c with
        | some control => (.text [control], rest)
        | none => (.text ['\\', c], rest)

/-- The pieces of an argument with escapes in it. -/
def escapedPieces : (fuel : Nat) → List Char → List Piece
  | 0, _ => []
  | _, [] => []
  | fuel + 1, '\\' :: rest =>
    let (piece, rest) := escapePiece true rest
    piece :: escapedPieces fuel rest
  | fuel + 1, c :: rest => .text [c] :: escapedPieces fuel rest

/-! ## Formats -/

/-- Whether a letter can follow the flags and the precision of a directive. -/
def isValid (d : Directive) : Bool :=
  let some? (cs : List Char) : Bool := d.flags.any cs.contains
  let letter := d.letter
  "aAcdeEfFgGiosuxX".toList.contains letter &&
    !(some? ['I', '\''] && "aAceEosxX".toList.contains letter) &&
    !(some? ['#'] && "cdisu".toList.contains letter) &&
    !(some? ['0'] && "cs".toList.contains letter) &&
    !(letter = 'c' && d.precision ≠ .absent)

/-- The pieces of a format. -/
def pieces : (fuel : Nat) → List Char → List Piece
  | 0, _ => []
  | _, [] => []
  | fuel + 1, '%' :: '%' :: rest => .text ['%'] :: pieces fuel rest
  | fuel + 1, '%' :: 'b' :: rest => .escaped :: pieces fuel rest
  | fuel + 1, '%' :: 'q' :: rest => .quoted :: pieces fuel rest
  | fuel + 1, '%' :: rest =>
    let (_, d, after) := Format.directive "I'-+ #0".toList "lLhjtz".toList rest
    if isValid d then .convert d :: pieces fuel after else [.invalid d]
  | fuel + 1, '\\' :: rest =>
    let (piece, rest) := escapePiece false rest
    piece :: pieces fuel rest
  | fuel + 1, c :: rest => .text [c] :: pieces fuel rest

/-! ## Writing -/

/-- What is left to be written from, and what has been written. -/
structure State where
  arguments : List String
  /-- The name under which complaints are made. -/
  name : String
  /-- What has been written, the last first. -/
  writes : List (Stream × Bytes) := []
  failed : Bool := false
  /-- Whether nothing more is written. -/
  ended : Bool := false

def State.write (s : State) (text : List Char) : State :=
  { s with writes := (.output, octets (String.ofList text)) :: s.writes }

/-- Notes a complaint; a warning is no failure. -/
def State.complain (s : State) (message : String) (warning : Bool) : State :=
  { s with
    writes := (.errors, octets (s.name ++ ": " ++ message ++ "\n")) :: s.writes
    failed := s.failed || !warning }

/-- Ends with a complaint. -/
def State.abort (s : State) (message : String) : State :=
  { s.complain message false with ended := true }

/-- Takes the next argument. -/
def State.next (s : State) : Option String × State :=
  (s.arguments.head?, { s with arguments := s.arguments.drop 1 })

/-- The character that an argument after a quote stands for, and what follows it. -/
def characterOf? (text : List Char) : Option (Nat × List Char) :=
  match text with
  | q :: c :: rest => if q = '"' || q = '\'' then some (c.toNat, rest) else none
  | _ => none

/-- Notes that characters follow one that counts as a number. -/
def State.checkCharacter (s : State) (rest : List Char) : State :=
  if rest.isEmpty then s
  else s.complain (String.ofList ("warning: ".toList ++ rest ++
    ": character(s) following character constant have been ignored".toList)) true

/-- Notes what is wrong with an argument as a number. -/
def State.checkNumber (s : State) (text : String) (rest : List Char) (outOfRange : Bool) : State :=
  let value := quotedValue text
  if outOfRange then s.complain s!"{value}: Numerical result out of range" false
  else if rest.isEmpty then s
  else if rest.length = text.length then s.complain s!"{value}: expected a numeric value" false
  else s.complain s!"{value}: value not completely converted" false

/-- Reads an argument as a whole number. -/
def State.integer (s : State) (signed : Bool) (text : String) : Int × State :=
  match characterOf? text.toList with
  | some (n, rest) => (n, s.checkCharacter rest)
  | none =>
    let r := Format.readInteger signed text.toList
    (r.value, s.checkNumber text r.rest r.outOfRange)

/-- Reads an argument as a number that need not be whole. -/
def State.floating (s : State) (text : String) : Floating.Number × State :=
  match characterOf? text.toList with
  | some (n, rest) => (⟨false, .finite n 1⟩, s.checkCharacter rest)
  | none =>
    let r := Floating.read Floating.extended text.toList
    (r.number, s.checkNumber text r.rest r.outOfRange)

/-- The greatest width and precision. -/
def maxMeasure : Int := 0x7FFFFFFF

/-- Works out the width. -/
def State.width (s : State) (l : Layout) (m : Measure) : Layout × State :=
  match m with
  | .absent => (l, s)
  | .given n => ({ l with width := n }, s)
  | .argument =>
    match s.next with
    | (none, s) => (l, s)
    | (some text, s) =>
      let (n, s) := s.integer true text
      if -maxMeasure - 1 ≤ n && n ≤ maxMeasure then (l.withWidth n, s)
      else (l, s.abort s!"invalid field width: {quotedValue text}")

/-- Works out the precision. -/
def State.precision (s : State) (l : Layout) (m : Measure) : Layout × State :=
  match m with
  | .absent => (l, s)
  | .given n => ({ l with precision := some n }, s)
  | .argument =>
    match s.next with
    | (none, s) => ({ l with precision := some 0 }, s)
    | (some text, s) =>
      let (n, s) := s.integer true text
      if n < 0 then (l, s)
      else if n ≤ maxMeasure then ({ l with precision := some n.toNat }, s)
      else (l, s.abort s!"invalid precision: {quotedValue text}")

/-- The layout of a directive. -/
def State.layout (s : State) (d : Directive) : Layout × State :=
  let (l, s) := s.width (Layout.ofFlags d.flags) d.width
  if s.ended then (l, s) else s.precision l d.precision

/-- Writes an argument as a directive says. -/
def State.convert (s : State) (l : Layout) (letter : Char) : State :=
  let (argument, s) := s.next
  let text := argument.getD ""
  if letter = 's' then s.write (l.text text.toList)
  else if letter = 'c' then s.write (l.text [text.toList.head?.getD '\x00'])
  else if letter = 'd' || letter = 'i' then
    let (n, s) := s.integer true text
    s.write (l.signed n)
  else if "ouxX".toList.contains letter then
    let (n, s) := s.integer false text
    s.write (l.unsigned letter n.toNat)
  else
    let (n, s) := s.floating text
    s.write (l.floating Floating.extended letter n)

/-- Writes a piece that is no argument with pieces of its own. -/
def State.simplePiece (s : State) (piece : Piece) : State :=
  if s.ended then s
  else
    match piece with
    | .text text => s.write text
    | .stop => { s with ended := true, failed := false }
    | .fault message => s.abort message
    | .quoted =>
      match s.next with
      | (none, s) => s
      | (some text, s) =>
        s.write (if needsQuotes text.toList then inShellQuotes text else text).toList
    | .convert d =>
      let (l, s) := s.layout d
      if s.ended then s else s.convert l d.letter
    | .invalid d =>
      let (_, s) := s.layout d
      if s.ended then s
      else s.abort (String.ofList d.written ++ ": invalid conversion specification")
    | .escaped => s

/-- Writes a piece. -/
def State.piece (s : State) (piece : Piece) : State :=
  match piece with
  | .escaped =>
    if s.ended then s
    else
      match s.next with
      | (none, s) => s
      | (some text, s) => (escapedPieces text.length text.toList).foldl State.simplePiece s
  | _ => s.simplePiece piece

/-- Writes the pieces again while arguments are left and some are used. -/
def State.repeat (ps : List Piece) : (fuel : Nat) → State → State
  | 0, s => s
  | fuel + 1, s =>
    let after := ps.foldl State.piece s
    if after.ended || after.arguments.isEmpty then after
    else if after.arguments.length = s.arguments.length then
      after.complain ("warning: ignoring excess arguments, starting with " ++
        quotedValue (after.arguments.headD "")) true
    else State.repeat ps fuel after

/-- Writes its arguments by a format. -/
def run : Tool := pureTool fun arguments c =>
  if arguments = ["--help"] || arguments = ["--version"] then {}
  else
    match if arguments.head? = some "--" then arguments.drop 1 else arguments with
    | [] => c.misuse "missing operand"
    | format :: rest =>
      let s := State.repeat (pieces format.length format.toList) (rest.length + 1)
        { arguments := rest, name := c.name }
      { status := if s.failed then 1 else 0, writes := s.writes.reverse }

end SourceJar.Tool.Printf
