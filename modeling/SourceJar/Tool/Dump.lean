import SourceJar.Tool.Floating
import SourceJar.Tool.Options
import SourceJar.Tool.Quantity

/-!
`od`: writes bytes as numbers or names, a block a line.

A layout has formats, and a block is written once in each; fields of different widths are set so that
they stand below the bytes that they show. Blocks equal to the one before are written as a star, once.
-/

namespace SourceJar.Tool.Dump

/-! ## Formats -/

/-- How a datum is written. -/
inductive Kind where
  | signed
  | unsigned
  | octal
  | hexadecimal
  | floating
  | name
  | char
  deriving DecidableEq, Repr

/-- How a block is written: the size and kind of its data, and whether its text follows. -/
structure Format where
  kind : Kind
  size : Nat
  trailer : Bool := false
  deriving DecidableEq, Repr

/-- The greatest number of characters of a datum. -/
def Format.fieldWidth (f : Format) : Nat :=
  match f.kind with
  | .octal => (8 * f.size + 2) / 3
  | .hexadecimal => 2 * f.size
  | .unsigned => (Nat.toDigits 10 (Nat.pow 256 f.size - 1)).length
  | .signed => (Nat.toDigits 10 (Nat.pow 256 f.size / 2)).length + 1
  | .floating => if f.size = 4 then 15 else if f.size = 8 then 24 else 29
  | .name => 3
  | .char => 3

/-- The names of the bytes below 33. -/
def names : List String :=
  ["nul", "soh", "stx", "etx", "eot", "enq", "ack", "bel", "bs", "ht", "nl", "vt", "ff", "cr", "so",
    "si", "dle", "dc1", "dc2", "dc3", "dc4", "nak", "syn", "etb", "can", "em", "sub", "esc", "fs", "gs",
    "rs", "us", "sp"]

/-- The name of a byte, its highest bit aside. -/
def nameOf (n : Nat) : String :=
  let n := n % 128
  if n = 127 then "del" else (names[n]?).getD (String.singleton (Char.ofNat n))

/-- A byte as a character, an escape or a number. -/
def charOf (n : Nat) : String :=
  let c := Char.ofNat n
  if n = 0 then "\\0"
  else if isPrintable c then String.singleton c
  else
    match escapeLetter? c with
    | some letter => String.ofList ['\\', letter]
    | none => String.ofList (digitsIn 8 3 n)

/-- The kinds of floating numbers: their precision, the bits of their exponent, and how many digits
are tried first and at most. -/
structure FloatLayout where
  precision : Floating.Precision
  exponentBits : Nat
  fractionBits : Nat
  firstDigits : Nat
  lastDigits : Nat

/-- The layout of a floating number with a size. -/
def floatLayout (size : Nat) : FloatLayout :=
  if size = 4 then ⟨Floating.single, 8, 23, 6, 9⟩
  else if size = 8 then ⟨Floating.double, 11, 52, 15, 17⟩
  else ⟨Floating.extended, 15, 63, 18, 21⟩

/-- The number that the bits of a floating number stand for. In the longest kind the first bit of the
fraction is written; without it the bits stand for no number. -/
def floatOf (size n : Nat) : Floating.Number :=
  let l := floatLayout size
  let written := size = 16
  let low := if written then l.fractionBits + 1 else l.fractionBits
  let fraction := n % Nat.pow 2 low
  let exponent := n / Nat.pow 2 low % Nat.pow 2 l.exponentBits
  let negative := n / Nat.pow 2 (low + l.exponentBits) % 2 = 1
  let bias : Int := (Nat.pow 2 (l.exponentBits - 1) : Nat) - 1
  let top := Nat.pow 2 l.exponentBits - 1
  let hidden := if written then 0 else Nat.pow 2 l.fractionBits
  if written && exponent ≠ 0 && fraction < Nat.pow 2 l.fractionBits then ⟨negative, .notANumber⟩
  else if exponent = top then
    ⟨negative, if fraction % Nat.pow 2 l.fractionBits = 0 then .infinite else .notANumber⟩
  else if exponent = 0 then ⟨negative, Floating.scaled fraction (1 - bias - l.fractionBits)⟩
  else ⟨negative, Floating.scaled (hidden + fraction) ((exponent : Int) - bias - l.fractionBits)⟩

/-- A floating number in the fewest digits that read back, from a usual number of digits on. -/
def floatText (size n : Nat) : String :=
  let l := floatLayout size
  let x := floatOf size n
  let body := match x.magnitude with
    | .finite a b =>
      let normal := Floating.floorLog2 a b ≥ l.precision.least + (l.precision.bits - 1)
      let first := if a ≠ 0 && !normal then 1 else l.firstDigits
      Floating.roundTripText l.precision a b (l.lastDigits - first) first
    | other => Floating.wordFor other
  String.ofList ((if x.negative then ['-'] else []) ++ body)

/-- A datum as it is written. -/
def Format.text (f : Format) (n : Nat) : String :=
  match f.kind with
  | .octal => String.ofList (digitsIn 8 f.fieldWidth n)
  | .hexadecimal => String.ofList (digitsIn 16 f.fieldWidth n)
  | .unsigned => toString n
  | .signed =>
    if n < Nat.pow 256 f.size / 2 then toString n else "-" ++ toString (Nat.pow 256 f.size - n)
  | .floating => floatText f.size n
  | .name => nameOf n
  | .char => charOf n

/-- The sizes that a letter stands for after a kind of whole or of floating number. -/
def sizeLetter? (floating : Bool) (c : Char) : Option Nat :=
  (if floating then [('F', 4), ('D', 8), ('L', 16)]
   else [('C', 1), ('S', 2), ('I', 4), ('L', 8)]).lookup c

/-- Reads a size after a kind: a letter, a number of bytes, or nothing. -/
def readSize (whole : String) (floating : Bool) (rest : List Char) :
    Except String (Nat × List Char) :=
  match rest.head?.bind (sizeLetter? floating) with
  | some size => .ok (size, rest.drop 1)
  | none =>
    let digits := rest.takeWhile Char.isDigit
    let size := digitsValue 10 digits
    let sort := if floating then "floating point" else "integral"
    if digits.isEmpty then .ok (if floating then 8 else 4, rest)
    else if (if floating then [4, 8, 16] else [1, 2, 4, 8]).contains size then
      .ok (size, rest.drop digits.length)
    else if 0x7FFFFFFFFFFFFFFF < size then .error s!"invalid type string {quotedValue whole}"
    else
      .error (s!"invalid type string {quotedValue whole};\n" ++
        s!"this system doesn't provide a {size}-byte {sort} type")

/-- Reads one format, and what follows it. -/
def readFormat (whole : String) (text : List Char) : Except String (Format × List Char) := do
  let (format, rest) ← (match text with
    | [] => throw s!"invalid type string {quotedValue whole}"
    | letter :: rest =>
      let sized (kind : Kind) : Except String (Format × List Char) := do
        let (size, rest) ← readSize whole (kind = .floating) rest
        return (⟨kind, size, false⟩, rest)
      if letter = 'd' then sized .signed
      else if letter = 'u' then sized .unsigned
      else if letter = 'o' then sized .octal
      else if letter = 'x' then sized .hexadecimal
      else if letter = 'f' then sized .floating
      else if letter = 'a' then return (⟨.name, 1, false⟩, rest)
      else if letter = 'c' then return (⟨.char, 1, false⟩, rest)
      else
        throw ("invalid character '" ++ String.singleton letter ++ "' in type string " ++
          quotedValue whole))
  match rest with
  | 'z' :: rest => return ({ format with trailer := true }, rest)
  | rest => return (format, rest)

/-- Reads formats one after another. -/
def readFormats (whole : String) : (fuel : Nat) → List Char → Except String (List Format)
  | 0, _ => .ok []
  | _, [] => .ok []
  | fuel + 1, text => do
    let (format, rest) ← readFormat whole text
    return format :: (← readFormats whole fuel rest)

/-! ## Layouts -/

/-- What is dumped, and how. -/
structure Request where
  offsetBase : Option Nat := some 8
  formats : List Format := []
  repeats : Bool := false
  skip : Nat := 0
  limit : Option Nat := none
  strings : Option Nat := none
  width : Option Nat := none
  bigEndian : Bool := false
  /-- Whether an option was given that rules out an offset among the operands. -/
  modern : Bool := false
  traditional : Bool := false
  /-- Complaints about formats, which end the tool once all options are read. -/
  faults : String := ""

/-- The formats of the letters that stand for one. -/
def letterFormats : List (String × Format) :=
  [("a", ⟨.name, 1, false⟩), ("b", ⟨.octal, 1, false⟩), ("c", ⟨.char, 1, false⟩),
    ("D", ⟨.unsigned, 4, false⟩), ("d", ⟨.unsigned, 2, false⟩), ("e", ⟨.floating, 8, false⟩),
    ("F", ⟨.floating, 8, false⟩), ("f", ⟨.floating, 4, false⟩), ("H", ⟨.hexadecimal, 4, false⟩),
    ("X", ⟨.hexadecimal, 4, false⟩), ("i", ⟨.signed, 4, false⟩), ("I", ⟨.signed, 8, false⟩),
    ("L", ⟨.signed, 8, false⟩), ("l", ⟨.signed, 8, false⟩), ("O", ⟨.octal, 4, false⟩),
    ("B", ⟨.octal, 2, false⟩), ("o", ⟨.octal, 2, false⟩), ("s", ⟨.signed, 2, false⟩),
    ("h", ⟨.hexadecimal, 2, false⟩), ("x", ⟨.hexadecimal, 2, false⟩)]

def options : Options where
  letters := [('A', .required), ('j', .required), ('N', .required), ('S', .required),
    ('t', .required), ('v', .none), ('w', .optional)] ++
    "aBbcDdeFfHhIiLlOosXx".toList.map fun c => (c, .none)
  names := [("skip-bytes", "j", .required), ("address-radix", "A", .required),
    ("read-bytes", "N", .required), ("format", "t", .required), ("output-duplicates", "v", .none),
    ("strings", "S", .optional), ("traditional", "traditional", .none), ("width", "w", .optional),
    ("endian", "endian", .required)] ++ Options.common

/-- Reads a quantity that starts with `0x` or `0` in another base. -/
def readQuantity (allowed text : List Char) : Quantity :=
  match text with
  | '0' :: 'x' :: rest => Quantity.read 16 (allowed.filter fun c => (digitIn? 16 c).isNone) rest
  | '0' :: 'X' :: rest => Quantity.read 16 (allowed.filter fun c => (digitIn? 16 c).isNone) rest
  | '0' :: _ => Quantity.read 8 allowed text
  | _ => Quantity.read 10 allowed text

/-- The letters that can start a scale. -/
def scaleLetters : List Char := "bEGKkMmPQRTYZ".toList

/-- The quantity of an option. -/
def quantity (c : Context) (key : String) (allowed : List Char) (text : String) :
    Except Outcome Nat :=
  match readQuantity allowed text.toList with
  | .value n => .ok n
  | .tooLarge => .error (c.complaint s!"-{key} argument '{text}' too large")
  | .invalid =>
    let digits := text.toList.head?.any Char.isDigit
    .error (c.complaint (if digits then s!"invalid suffix in -{key} argument '{text}'"
      else s!"invalid -{key} argument '{text}'"))

/-- The base that a letter stands for. -/
def offsetBase? (c : Char) : Option (Option Nat) :=
  [('n', none), ('o', some 8), ('d', some 10), ('x', some 16)].lookup c

/-- Takes in one option. -/
def step (c : Context) (r : Request) (key : String) (value : Option String) :
    Except Outcome Request := do
  let text := value.getD ""
  match letterFormats.lookup key with
  | some format => return { r with formats := r.formats ++ [format] }
  | none =>
    if key = "traditional" then return { r with traditional := true }
    else if key = "endian" then
      return { r with bigEndian := ← meaningOf c key [("little", false), ("big", true)] text }
    else
      let r := { r with modern := true }
      if key = "A" then
        match text.toList.head?.bind offsetBase? with
        | some offsetBase => return { r with offsetBase }
        | none =>
          throw (c.complaint ("invalid output address radix '" ++ String.ofList (text.toList.take 1) ++
            "'; it must be one character from [doxn]"))
      else if key = "j" then return { r with skip := ← quantity c key scaleLetters text }
      else if key = "N" then return { r with limit := some (← quantity c key scaleLetters text) }
      else if key = "S" then
        match value with
        | none => return { r with strings := some 3 }
        | some text => return { r with strings := some (← quantity c key scaleLetters text) }
      else if key = "t" then
        match readFormats text text.length text.toList with
        | .ok formats => return { r with formats := r.formats ++ formats }
        | .error e => return { r with faults := r.faults ++ s!"{c.name}: {e}\n" }
      else if key = "w" then
        match value with
        | none => return { r with width := some 32 }
        | some text => return { r with width := some (← quantity c key [] text) }
      else return { r with repeats := true }

/-- Takes in options in order. Faults in formats are told even if another fault follows them. -/
def takeIn (c : Context) : Request → List Item → Except Outcome Request
  | r, [] => .ok r
  | r, item :: rest =>
    match applyOptions c (step c) r [item] with
    | .error e => .error (both (remark r.faults) e)
    | .ok r => takeIn c r rest

/-- An offset among the operands: octal, or decimal with a point, in blocks with a `b`. -/
def oldOffset? (text : String) : Option Nat :=
  let text := match text.toList with
    | '+' :: rest => rest
    | rest => rest
  let (text, factor) := if text.getLast? = some 'b' then (text.dropLast, 512) else (text, 1)
  let (text, base) :=
    if text.getLast? = some '.' then (text.dropLast, 10)
    else
      match text with
      | '0' :: 'x' :: rest => (rest, 16)
      | '0' :: 'X' :: rest => (rest, 16)
      | rest => (rest, 8)
  if !text.isEmpty && text.all fun d => (digitIn? base d).isSome then
    some (digitsValue base text * factor)
  else none

/-- The offset and the files among the operands. -/
def operandsOf (r : Request) (operands : List String) : Request × List String :=
  let starts (text : String) (digits : Bool) : Bool :=
    r.traditional || text.toList.head? = some '+' || (digits && text.toList.head?.any Char.isDigit)
  if r.modern && !r.traditional then (r, operands)
  else
    match operands with
    | [text] =>
      match if starts text false then oldOffset? text else none with
      | some skip => ({ r with skip }, [])
      | none => (r, operands)
    | [file, text] =>
      match if starts text true then oldOffset? text else none with
      | some skip => ({ r with skip }, [file])
      | none => (r, operands)
    | _ => (r, operands)

/-! ## Blocks -/

/-- The least common multiple of the sizes. -/
def unit (formats : List Format) : Nat := formats.foldl (fun n f => Nat.lcm n f.size) 1

/-- The width of offsets. -/
def offsetWidth (r : Request) : Nat :=
  match r.offsetBase with
  | none => 0
  | some base => if base = 16 then 6 else 7

/-- An offset at the start of a line. -/
def offsetText (r : Request) (offset : Nat) : String :=
  match r.offsetBase with
  | none => ""
  | some base => String.ofList (digitsIn base (offsetWidth r) offset)

/-- The number that bytes spell, the lowest first unless they are in the other order. -/
def datum (bigEndian : Bool) (bytes : Bytes) : Nat :=
  (if bigEndian then bytes else bytes.reverse).foldl (fun n b => n * 256 + b.toNat) 0

/-- The fields of a block: data to the right of blanks that are spread over the fields. -/
def fieldsText (r : Request) (f : Format) (padding count : Nat) : (left : Nat) → Bytes → String
  | 0, _ => ""
  | left + 1, bytes =>
    if bytes.isEmpty then ""
    else
      let blanks := padding * (left + 1) / count - padding * left / count
      padLeft (f.fieldWidth + blanks) (f.text (datum r.bigEndian (bytes.take f.size))) ++
        fieldsText r f padding count left (bytes.drop f.size)

/-- The text of a block after its fields. -/
def trailerText (bytes : Bytes) : String :=
  let shown (b : UInt8) : Char :=
    if isPrintable (Char.ofNat b.toNat) then Char.ofNat b.toNat else '.'
  "  >" ++ String.ofList (bytes.map shown) ++ "<"

/-- A block in all formats; the bytes that are missing count as zero. -/
def blockText (r : Request) (size : Nat) (offset : Nat) (bytes : Bytes) : String :=
  let width := (r.formats.map fun f => (f.fieldWidth + 1) * (size / f.size)).foldl max 0
  let lines := r.formats.zipIdx.map fun (f, i) =>
    let count := size / f.size
    let padding := width - f.fieldWidth * count
    let blank := (size - bytes.length) / f.size
    let missing := List.replicate ((count - blank) * f.size - bytes.length) 0
    (if i = 0 then offsetText r offset else padLeft (offsetWidth r) "") ++
      fieldsText r f padding count count (bytes ++ missing) ++
      (if f.trailer then
        padLeft (blank * f.fieldWidth + padding * blank / count) "" ++ trailerText bytes else "") ++
      "\n"
  String.join lines

/-- The lines of a dump, each with the offset that is read up to before it is written; `before` is
the block before, and `starred`: a star stands for it. -/
def dumpLines (r : Request) (size : Nat) : (fuel offset : Nat) → (before : Option Bytes) →
    (starred : Bool) → Bytes → List (Nat × String)
  | 0, _, _, _, _ => []
  | _, _, _, _, [] => []
  | fuel + 1, offset, before, starred, bytes =>
    let block := bytes.take size
    let rest := bytes.drop size
    if !r.repeats && before == some block && block.length == size then
      (if starred then [] else [(offset + size, "*\n")]) ++
        dumpLines r size fuel (offset + size) before true rest
    else
      (offset + size, blockText r size offset block) ::
        dumpLines r size fuel (offset + block.length) (some block) false rest

/-- A character of a string, with an escape if it has one. -/
def stringChar (b : UInt8) : List Char :=
  let c := Char.ofNat b.toNat
  match escapeLetter? c with
  | some letter => ['\\', letter]
  | none => [c]

/-- The strings of so many characters or more that end in a zero, each with the offset that is read
up to before it is written; `run` holds, reversed, what shows since the last byte that does not. -/
def stringLines (r : Request) (least : Nat) : (offset : Nat) → (run : Bytes) → Bytes →
    List (Nat × String)
  | _, _, [] => []
  | offset, run, b :: rest =>
    if b = 0 then
      (if least ≤ run.length then
        [(offset + 1, offsetText r (offset - run.length) ++
          (if r.offsetBase.isNone then "" else " ") ++
          String.ofList (run.reverse.flatMap stringChar) ++ "\n")] else []) ++
        stringLines r least (offset + 1) [] rest
    else if isPrintable (Char.ofNat b.toNat) then stringLines r least (offset + 1) (b :: run) rest
    else stringLines r least (offset + 1) [] rest

/-- The size of a block, and a warning about a width that does not suit the formats. -/
def blockSize (c : Context) (r : Request) : Nat × String :=
  let unit := unit r.formats
  match r.width with
  | none => (if unit < 16 then unit * (16 / unit) else unit, "")
  | some width =>
    if width ≠ 0 && width % unit = 0 then (width, "")
    else (unit, s!"{c.name}: warning: invalid width {width}; using {unit} instead\n")

/-- What has been read of the files. -/
structure Gathered where
  content : Bytes := []
  /-- Those about files before the first byte that is wanted. -/
  early : Outcome := {}
  /-- Those about later files, each with the number of bytes that had been read before it. -/
  late : List (Nat × Outcome) := []
  /-- Whether any file could be opened. -/
  opened : Bool := false
  /-- How much is still to be skipped, and how much of the rest is wanted. -/
  skip : Nat
  wanted : Option Nat

/-- Whether all that is wanted has been read. -/
def Gathered.isFull (g : Gathered) : Bool := g.opened && g.skip = 0 && g.wanted = some 0

/-- Takes in a content; also what is left of it. -/
def Gathered.add (g : Gathered) (content : Bytes) : Gathered × Bytes :=
  let rest := content.drop g.skip
  let taken := match g.wanted with
    | none => rest
    | some n => rest.take n
  ({ g with
      content := g.content ++ taken
      opened := true
      skip := g.skip - content.length
      wanted := g.wanted.map (· - taken.length) }, rest.drop taken.length)

/-- Whether a path leads to something in which any number of bytes can be skipped. -/
def isDevice (c : Context) (name : String) : Bool :=
  match c.fs.stat (pathOf name) with
  | .ok .device => true
  | _ => false

/-- Reads files one after another, as long as something is wanted. After one that is a directory or a
device, nothing more is skipped. -/
def gather : Gathered → List String → Context → Gathered × Context
  | g, [], c => (g, c)
  | g, name :: rest, c =>
    if g.isFull then (g, c)
    else
      match c.read name with
      | (.ok content, after) =>
        let g := if isDevice c name then { g with skip := 0 } else g
        let (g, left) := g.add content
        gather g rest (if isInput name then { after with input := left } else after)
      | (.error e, after) =>
        let shown := shownName (if name = "-" then "standard input" else name)
        let complaint := c.complaint s!"{shown}: {faultText e}"
        if e = .os .isDirectory || (name = "-" && (g.skip = 0 || c.inputFault = some .wrongWay)) then
          gather { g with
            late := g.late ++ [(g.content.length, complaint)], opened := true, skip := 0 } rest after
        else if g.opened && g.skip = 0 then
          gather { g with late := g.late ++ [(g.content.length, complaint)] } rest after
        else gather { g with
          early := both g.early complaint, opened := g.opened || name = "-" } rest after

/-- What is dumped of the files, and the complaints that come with it. After a complaint the dump ends
with the block that was being read, if the files fill it, and with the block before that once more. -/
def Gathered.dumped (size : Nat) (g : Gathered) : Bytes × List (Nat × Outcome) :=
  match g.late with
  | [] => (g.content, [])
  | (position, _) :: _ =>
    let start := position / size * size
    let stop := start + size
    if g.content.length < stop then (g.content, g.late)
    else
      let repeated := if start = 0 then List.replicate size 0
        else (g.content.drop (start - size)).take size
      (g.content.take stop ++ repeated, g.late.filter fun (position, _) => position < stop)

/-- Complaints and lines in the order in which they arise: a line once what it shows has been read. -/
def inOrder : List (Nat × Outcome) → List (Nat × String) → Outcome
  | [], lines => success (octets (String.join (lines.map (·.2))))
  | (position, complaint) :: rest, lines =>
    let done := lines.takeWhile fun (offset, _) => offset ≤ position
    both (success (octets (String.join (done.map (·.2)))))
      (both complaint (inOrder rest (lines.drop done.length)))

/-- Writes the bytes of files as numbers. -/
def run : Tool := fun arguments c =>
  let (items, operands) := options.scan arguments
  match takeIn c {} items with
  | .error r => (r, c)
  | .ok r =>
    let (r, files) := operandsOf r operands
    if r.faults ≠ "" then (refusal r.faults 1, c)
    else if r.strings.isSome && !r.formats.isEmpty then
      (c.complaint "no type may be specified when dumping strings", c)
    else if r.traditional && 1 < files.length then
      (both (c.complaint ("extra operand " ++ quotedValue ((operands.drop 1).headD "")))
        (c.misuse "compatibility mode supports at most one file"), c)
    else
      let r := if r.formats.isEmpty then { r with formats := [⟨.octal, 2, false⟩] } else r
      let (g, after) := gather { skip := r.skip, wanted := r.limit } (orInput files) c
      let shifted (complaints : List (Nat × Outcome)) : List (Nat × Outcome) :=
        complaints.map fun (position, complaint) => (r.skip + position, complaint)
      let closing := if c.readsClosed (orInput files) then
          c.complaint s!"standard input: {Errno.badDescriptor.text}" else {}
      if !g.opened then (g.early, after)
      else if 0 < g.skip then
        (both g.early (c.complaint "cannot skip past end of combined input"), after)
      else
        match r.strings with
        | some least =>
          let lines := stringLines r least r.skip [] g.content
          (both (both g.early (inOrder (shifted g.late) lines)) closing, after)
        | none =>
          let (size, warning) := blockSize c r
          let (content, late) := g.dumped size
          let lines := dumpLines r size content.length r.skip none false content
          let final := if r.offsetBase.isNone then ""
            else offsetText r (r.skip + content.length) ++ "\n"
          let written := both (inOrder (shifted late) lines) (success (octets final))
          (both (both g.early (remark warning)) (both written closing), after)

end SourceJar.Tool.Dump
