/-!
Writing TOML strings and lists.

A string is written in the first of four forms that shows it without escapes: in double quotes, in
single quotes, in three double quotes, or in three single quotes. Single quotes keep every character as
it is but cannot hold themselves, and only the forms with three quotes hold line ends; a string with
line ends then starts on a line of its own. If no form will do the string is written with escapes.
Lists with two items or more have one item a line.
-/

namespace SourceJar.Toml

/-- Whether a character can only be written as an escape. -/
def needsEscape (c : Char) : Bool :=
  (c.toNat < 0x20 && c != '\t' && c != '\n') || c.toNat == 0x7F

/-- Four hexadecimal digits. -/
def fourDigits (n : Nat) : List Char :=
  let digits := (Nat.toDigits 16 n).map Char.toUpper
  List.replicate (4 - digits.length) '0' ++ digits

/-- A character other than a quote in a string with escapes. -/
def escaped (lines : Bool) (c : Char) : List Char :=
  match c with
  | '\x08' => ['\\', 'b']
  | '\t' => ['\\', 't']
  | '\n' => if lines then ['\n'] else ['\\', 'n']
  | '\x0c' => ['\\', 'f']
  | '\r' => ['\\', 'r']
  | '\\' => ['\\', '\\']
  | c => if needsEscape c then ['\\', 'u'] ++ fourDigits c.toNat else [c]

/-- The inside of a string in double quotes. -/
def basicBody : List Char → List Char
  | [] => []
  | '"' :: rest => '\\' :: '"' :: basicBody rest
  | c :: rest => escaped false c ++ basicBody rest

/-- The inside of a string in three double quotes; every third of a row of quotes is escaped. -/
def basicLinesBody : Nat → List Char → List Char
  | _, [] => []
  | row, '"' :: rest =>
    if row % 3 = 2 then '\\' :: '"' :: basicLinesBody (row + 1) rest
    else '"' :: basicLinesBody (row + 1) rest
  | _, c :: rest => escaped true c ++ basicLinesBody 0 rest

/-- The quotes around a string. -/
inductive Quotes where
  | double
  | single
  | threeDouble
  | threeSingle
  deriving DecidableEq, Repr

/-- The length of the longest row of a character; `row` is that of the row before the text, and
`longest` that of the longest one. -/
def longestRowFrom (mark : Char) (row longest : Nat) : List Char → Nat
  | [] => longest
  | c :: rest =>
    if c = mark then longestRowFrom mark (row + 1) (max longest (row + 1)) rest
    else longestRowFrom mark 0 longest rest

/-- The length of the longest row of a character in a text. -/
def longestRow (mark : Char) (text : List Char) : Nat := longestRowFrom mark 0 0 text

/-- The quotes for a string. -/
def quotesFor (text : List Char) : Quotes :=
  let lines := text.contains '\n'
  let plain := !text.any needsEscape
  let plainDouble := plain && !text.contains '\\'
  let doubles := longestRow '"' text
  let singles := longestRow '\'' text
  if plainDouble && doubles = 0 && !lines then .double
  else if plain && singles = 0 && !lines then .single
  else if plainDouble && doubles ≤ 2 then .threeDouble
  else if plain && singles ≤ 2 then .threeSingle
  else if lines then .threeDouble
  else .double

/-- A string in quotes. -/
def quoted (quotes : Quotes) (text : List Char) : List Char :=
  let start := if text.contains '\n' then ['\n'] else []
  let row (mark : Char) : List Char := List.replicate 3 mark
  match quotes with
  | .double => '"' :: basicBody text ++ ['"']
  | .single => '\'' :: text ++ ['\'']
  | .threeDouble => row '"' ++ start ++ basicLinesBody 0 text ++ row '"'
  | .threeSingle => row '\'' ++ start ++ text ++ row '\''

/-- A string. -/
def stringText (text : String) : String :=
  String.ofList (quoted (quotesFor text.toList) text.toList)

/-- A list of strings. -/
def listText (items : List String) : String :=
  match items with
  | [] => "[]"
  | [item] => "[" ++ stringText item ++ "]"
  | items => "[\n" ++ String.join (items.map fun item => "    " ++ stringText item ++ ",\n") ++ "]"

end SourceJar.Toml
