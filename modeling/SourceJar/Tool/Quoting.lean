import SourceJar.Tool.Basic

/-!
Names and values in the complaints of tools.

A name is quoted the way a shell would read it back: bare if it has no character that a shell treats
specially, in double quotes if an apostrophe is the only difficulty, and otherwise in single quotes,
with bytes that do not show written as escapes in a part of its own. A value is always quoted, with
backslashes before quotes and escapes inside.
-/

namespace SourceJar.Tool

/-- The letter of an escape for a control character. -/
def escapeLetter? (c : Char) : Option Char :=
  [('\x07', 'a'), ('\x08', 'b'), ('\x0c', 'f'), ('\n', 'n'), ('\r', 'r'), ('\t', 't'),
    ('\x0b', 'v')].lookup c

/-- A character that does not show, as an escape. -/
def escapeOf (c : Char) : List Char :=
  match escapeLetter? c with
  | some letter => ['\\', letter]
  | none => '\\' :: digitsIn 8 3 c.toNat

/-- Whether a shell treats a character specially wherever it stands. -/
def isShellSpecial (c : Char) : Bool :=
  !isPrintable c || " !\"$&'()*;<=>?[\\^`|".toList.contains c

/-- Whether a name is misread without quotes. -/
def needsQuotes (name : List Char) : Bool :=
  match name with
  | [] => true
  | [c] => isShellSpecial c || "#~".toList.contains c || c.toNat = 0x7B || c.toNat = 0x7D
  | c :: _ => name.any isShellSpecial || "#~".toList.contains c

/-- Whether a character means itself in double quotes too. -/
def isPlainInDouble (c : Char) : Bool :=
  c.isAlphanum || " '%+,-./:]_@".toList.contains c

/-- The inside of a name in single quotes; `escaping`: a part with escapes has begun. -/
def singleQuoted : (escaping : Bool) → List Char → List Char
  | _, [] => []
  | _, '\'' :: rest => "'\\''".toList ++ singleQuoted false rest
  | escaping, c :: rest =>
    if isPrintable c then (if escaping then ['\'', '\''] else []) ++ c :: singleQuoted false rest
    else (if escaping then [] else "'$'".toList) ++ escapeOf c ++ singleQuoted true rest

/-- Whether the last character of a name does not show. -/
def endsInEscape (name : List Char) : Bool :=
  name.getLast?.any fun c => !isPrintable c

/-- A name in quotes that a shell undoes. One with an apostrophe is gone through a second time, from
where the first time ended: its start is written as if after an escape if there is one at its end. -/
def inShellQuotes (name : String) : String :=
  let chars := name.toList
  let second := chars.contains '\''
  if second && chars.all isPlainInDouble then "\"" ++ name ++ "\""
  else String.ofList ('\'' :: singleQuoted (second && endsInEscape chars) chars ++ ['\''])

/-- A name at the start of a complaint, in quotes only if it could be misread. -/
def shownName (name : String) : String :=
  if needsQuotes name.toList || name.toList.contains ':' then inShellQuotes name else name

/-- A value in a complaint. -/
def quotedValue (value : String) : String :=
  let inside := value.toList.flatMap fun c =>
    if c = '\'' then ['\\', '\''] else if c = '\\' then ['\\', '\\']
    else if isPrintable c then [c] else escapeOf c
  "'" ++ String.ofList inside ++ "'"

end SourceJar.Tool
