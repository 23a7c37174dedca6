import SourceJar.Tool.Options

/-!
`cat`: writes files one after another, with lines numbered, empty lines squeezed, or characters that
do not show made visible.
-/

namespace SourceJar.Tool.Cat

/-- What is added to the content. -/
structure Style where
  number : Bool := false
  numberFull : Bool := false
  squeeze : Bool := false
  ends : Bool := false
  tabs : Bool := false
  marks : Bool := false

/-- A byte below 128 that is made visible. -/
def shownLow (n : Nat) : List Char :=
  if n < 0x20 then ['^', Char.ofNat (n + 64)] else if n = 0x7F then ['^', '?'] else [Char.ofNat n]

/-- A byte that is made visible. -/
def shown (n : Nat) : List Char :=
  if n < 0x80 then shownLow n else 'M' :: '-' :: shownLow (n - 128)

/-- A byte inside a line. -/
def styled (s : Style) (b : UInt8) : Bytes :=
  if b = 0x09 then if s.tabs then octets "^I" else [b]
  else if s.marks then octets (String.ofList (shown b.toNat))
  else [b]

/-- The end of a line before its line feed. A carriage return there is shown with the end. -/
def lineInside (s : Style) : Bytes → Bytes
  | [] => []
  | [b] => if b = 0x0D && s.ends then octets "^M" else styled s b
  | b :: rest => styled s b ++ lineInside s rest

/-- A line's number before it. -/
def numbered (n : Nat) : Bytes := octets (padLeft 6 (toString n) ++ "\t")

/-- Writes lines; `n` lines have numbers, and `blanks` empty ones have just gone by. The last line
has no line feed. -/
def writeLines (s : Style) : (n blanks : Nat) → List Bytes → Bytes
  | _, _, [] => []
  | n, _, [last] =>
    if last.isEmpty then []
    else (if s.number then numbered (n + 1) else []) ++ last.flatMap (styled s)
  | n, blanks, line :: rest =>
    if line.isEmpty && s.squeeze && 1 ≤ blanks then writeLines s n (blanks + 1) rest
    else
      let counts := s.number && !(line.isEmpty && s.numberFull)
      (if counts then numbered (n + 1) else []) ++ lineInside s line ++
        (if s.ends then octets "$" else []) ++ [0x0A] ++
        writeLines s (if counts then n + 1 else n) (if line.isEmpty then blanks + 1 else 0) rest

/-- Whether the content is written as it is. -/
def Style.isPlain (s : Style) : Bool :=
  !(s.number || s.squeeze || s.ends || s.tabs || s.marks)

def options : Options := Options.flags
  [('b', "number-nonblank"), ('n', "number"), ('s', "squeeze-blank"), ('v', "show-nonprinting"),
    ('E', "show-ends"), ('T', "show-tabs"), ('A', "show-all"), ('e', ""), ('t', ""), ('u', "")] false

/-- The style that options ask for. -/
def styleOf (keys : List String) : Style where
  number := keys.contains "n" || keys.contains "b"
  numberFull := keys.contains "b"
  squeeze := keys.contains "s"
  ends := keys.contains "E" || keys.contains "A" || keys.contains "e"
  tabs := keys.contains "T" || keys.contains "A" || keys.contains "t"
  marks := keys.any fun key => ["v", "A", "e", "t"].contains key

/-- The text of contents that follow one another. -/
def textOf (s : Style) (content : Bytes) : Bytes :=
  if s.isPlain then content else writeLines s 0 0 (Split.splitOn 0x0A content)

/-- Whether an operand is the file that the output goes to. -/
def isOutput (c : Context) (name : String) : Bool :=
  let place := if isInput name then c.inputPlace
    else
      match c.fs.locate true (pathOf name) with
      | .ok (.taken place _) => some place
      | _ => none
  place.isSome && place = c.outputPlace

/-- Writes contents after those before them. Lines, and with them their numbers, go on from one file
into the next. The file that the output goes to is left out unless it is empty. -/
def writeAll (c : Context) (s : Style) (before : Bytes) :
    List (String × Except IoFault Bytes) → Outcome
  | [] => {}
  | (name, .error e) :: rest =>
    both (c.complaint s!"{shownName name}: {faultText e}") (writeAll c s before rest)
  | (name, .ok content) :: rest =>
    if isOutput c name && !(before.isEmpty && content.isEmpty) then
      both (c.complaint s!"{shownName name}: input file is output file") (writeAll c s before rest)
    else
      let all := before ++ content
      both (success ((textOf s all).drop (textOf s before).length)) (writeAll c s all rest)

/-- Writes files one after another. -/
def run : Tool := fun arguments c =>
  let (items, operands) := options.scan arguments
  match optionKeys c items with
  | .error r => (r, c)
  | .ok keys =>
    if c.outputFault = some .closed then
      (c.complaint s!"standard output: {Errno.badDescriptor.text}", c)
    else
      let style := styleOf keys
      let (found, after) := c.readAll (orInput operands)
      let closing := if c.readsClosed (orInput operands) then
          c.complaint s!"closing standard input: {Errno.badDescriptor.text}" else {}
      (both (writeAll c style [] found) closing, after)

end SourceJar.Tool.Cat
