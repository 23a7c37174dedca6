import SourceJar.Tool.Options
import SourceJar.Tool.Quantity

/-!
`head`: writes the start of files, up to a number of lines or bytes, or all but so many at the end.
-/

namespace SourceJar.Tool.Head

/-- Which part of a content is wanted, and when it has a title. -/
structure Extent where
  count : Nat := 10
  lines : Bool := true
  /-- Whether the count is that of lines or bytes left out at the end. -/
  fromEnd : Bool := false
  lineEnd : UInt8 := 0x0A
  /-- Whether each content has a title; by default it has one if there are several. -/
  titles : Option Bool := none

/-- How long the first lines of a content are. -/
def linesLength (lineEnd : UInt8) : (count : Nat) → Bytes → Nat
  | 0, _ => 0
  | _, [] => 0
  | n + 1, b :: rest => 1 + linesLength lineEnd (if b = lineEnd then n else n + 1) rest

/-- How many lines a content has, the last one with or without its end. -/
def lineCount (lineEnd : UInt8) (content : Bytes) : Nat :=
  match content.getLast? with
  | none => 0
  | some last => content.count lineEnd + (if last = lineEnd then 0 else 1)

/-- Whether nothing is wanted of any content: none is read then. -/
def Extent.isEmpty (e : Extent) : Bool :=
  !e.fromEnd && e.count == 0

/-- How much of a content is wanted. -/
def Extent.length (e : Extent) (content : Bytes) : Nat :=
  if e.lines then
    linesLength e.lineEnd (if e.fromEnd then lineCount e.lineEnd content - e.count else e.count) content
  else if e.fromEnd then content.length - e.count
  else min e.count content.length

/-- How much is read at once. -/
def blockSize : Nat := 8192

/-- How much of the input is used up: what is written, except that lines are found in whole blocks of
an input in which one cannot go back, and that an end is known only at the end. -/
def Extent.used (e : Extent) (seekable : Bool) (content : Bytes) : Nat :=
  if e.fromEnd then content.length
  else if e.lines && !seekable then
    min content.length ((e.length content + blockSize - 1) / blockSize * blockSize)
  else e.length content

/-- The largest place in a file. -/
def largestOffset : Nat := 9223372036854775807

/-- The letters that can start a scale. -/
def scaleLetters : List Char := "bkKmMGTPEZYRQ".toList

/-- Reads a count. -/
def readCount (c : Context) (lines : Bool) (text : List Char) : Except Outcome Nat :=
  let unit := if lines then "lines" else "bytes"
  let complaint (ending : String) : Outcome :=
    c.complaint (s!"invalid number of {unit}: " ++ quotedValue (String.ofList text) ++ ending)
  match Quantity.read 10 scaleLetters text with
  | .value n => .ok n
  | .tooLarge => .error (complaint ": Value too large for defined data type")
  | .invalid => .error (complaint "")

/-- Takes in one option. -/
def step (c : Context) (e : Extent) (key : String) (value : Option String) :
    Except Outcome Extent := do
  if key = "q" then return { e with titles := some false }
  else if key = "v" then return { e with titles := some true }
  else if key = "z" then return { e with lineEnd := 0 }
  else if key = "n" || key = "c" then
    let lines := key = "n"
    let (fromEnd, text) := match (value.getD "").toList with
      | '-' :: rest => (true, rest)
      | rest => (false, rest)
    return { e with lines, fromEnd, count := ← readCount c lines text }
  else throw (c.misuse ("invalid trailing option -- " ++ key))

def options : Options where
  letters := [('c', .required), ('n', .required), ('q', .none), ('v', .none), ('z', .none)] ++
    "0123456789".toList.map fun c => (c, .none)
  names := [("bytes", "c", .required), ("lines", "n", .required), ("quiet", "q", .none),
    ("silent", "q", .none), ("verbose", "v", .none), ("zero-terminated", "z", .none)] ++
    Options.common

/-- The letters after a count in the first argument. -/
structure Trailing where
  extent : Extent := {}
  scale : List Char := []

/-- Takes in the letters after a count in the first argument. -/
def trailing (c : Context) : Trailing → List Char → Except Outcome Trailing
  | t, [] => .ok t
  | t, letter :: rest =>
    if letter = 'c' then trailing c ⟨{ t.extent with lines := false }, []⟩ rest
    else if ['b', 'k', 'm'].contains letter then
      trailing c ⟨{ t.extent with lines := false }, [letter]⟩ rest
    else if letter = 'l' then trailing c { t with extent := { t.extent with lines := true } } rest
    else if letter = 'q' then
      trailing c { t with extent := { t.extent with titles := some false } } rest
    else if letter = 'v' then
      trailing c { t with extent := { t.extent with titles := some true } } rest
    else if letter = 'z' then trailing c { t with extent := { t.extent with lineEnd := 0 } } rest
    else .error (c.misuse ("invalid trailing option -- " ++ String.singleton letter))

/-- Reads a first argument that is a dash and a count, with letters after it. -/
def shortForm (c : Context) (arguments : List String) : Except Outcome (Extent × List String) :=
  match arguments with
  | word :: rest =>
    match word.toList with
    | '-' :: d :: more =>
      if d.isDigit then do
        let digits := d :: more.takeWhile Char.isDigit
        let t ← trailing c {} (more.dropWhile Char.isDigit)
        let count ← readCount c t.extent.lines (digits ++ t.scale)
        return ({ t.extent with count }, rest)
      else .ok ({}, arguments)
    | _ => .ok ({}, arguments)
  | [] => .ok ({}, [])

/-- The line before a content. -/
def title (first : Bool) (name : String) : Bytes :=
  octets ((if first then "" else "\n") ++ "==> " ++ (if name = "-" then "standard input" else name) ++
    " <==\n")

/-- Writes the start of each operand; `first`: none has had a title. -/
def writeAll (e : Extent) (titles : Bool) : (first : Bool) → List String → Context →
    Outcome × Context
  | _, [], c => ({}, c)
  | first, name :: rest, c =>
    let heading := if titles then title first name else []
    let (content, after) := c.read name
    let (result, c, first) :=
      match content with
      | .ok content =>
        let after := if isInput name then
            { after with input := content.drop (e.used c.seekable content) } else after
        (success (heading ++ content.take (e.length content)), after, false)
      | .error fault =>
        let shown := inShellQuotes (if name = "-" then "standard input" else name)
        if name = "-" || fault = .os .isDirectory then
          let doing := if e.fromEnd && c.inputFault = some .closed && name = "-" then "cannot fstat"
            else "error reading"
          let fault := if e.isEmpty then {} else
            c.complaint s!"{doing} {shown}: {faultText fault}"
          (both (success heading) fault, c, false)
        else (c.complaint s!"cannot open {shown} for reading: {faultText fault}", c, first)
    let (others, c) := writeAll e titles first rest c
    (both result others, c)

/-- Writes the start of files. -/
def run : Tool := fun arguments c =>
  let parsed : Except Outcome (Extent × List String) := do
    let (extent, arguments) ← shortForm c arguments
    let (items, operands) := options.scan arguments
    let extent ← applyOptions c (step c) extent items
    if !extent.lines && extent.fromEnd && largestOffset < extent.count then
      throw (c.complaint (s!"invalid number of bytes: '{extent.count}'" ++
        ": Value too large for defined data type"))
    return (extent, operands)
  match parsed with
  | .error r => (r, c)
  | .ok (extent, operands) =>
    let (r, after) :=
      writeAll extent (extent.titles.getD (1 < operands.length)) true (orInput operands) c
    (if c.readsClosed (orInput operands) then
        both r (c.complaint s!"-: {Errno.badDescriptor.text}") else r, after)

end SourceJar.Tool.Head
