import SourceJar.Tool.Basic

/-!
Escapes that begin with a backslash, as tools that write their arguments undo them.
-/

namespace SourceJar.Tool.Escape

/-- The control character that a letter stands for. -/
def control? (c : Char) : Option Char :=
  [('a', '\x07'), ('b', '\x08'), ('e', '\x1b'), ('f', '\x0c'), ('n', '\n'), ('r', '\r'), ('t', '\t'),
    ('v', '\x0b'), ('\\', '\\')].lookup c

/-- Reads at most so many digits; also what follows them. -/
def takeDigits (base limit : Nat) (text : List Char) : List Char × List Char :=
  let digits := (text.take limit).takeWhile fun c => (digitIn? base c).isSome
  (digits, text.drop digits.length)

/-- The byte that digits stand for. -/
def byteOf (base : Nat) (digits : List Char) : Char := Char.ofNat (digitsValue base digits % 256)

/-- Reads at most three octal digits, of which there is at least one, as a byte. -/
def octal? (text : List Char) : Option (Char × List Char) :=
  match takeDigits 8 3 text with
  | ([], _) => none
  | (digits, rest) => some (byteOf 8 digits, rest)

/-- Reads an octal escape in which a zero can stand before three digits. -/
def octalAfterZero? (text : List Char) : Option (Char × List Char) :=
  match text with
  | '0' :: rest => some ((octal? rest).getD ('\x00', rest))
  | _ => octal? text

/-- Undoes the escapes of a text with a reader of what follows a backslash, which also says whether
all output ends there. A backslash that starts no escape stays. Each escape is read once, so `fuel` is
the length of the text. -/
def undo (reader : List Char → Option (Char × List Char)) : (fuel : Nat) → List Char → List Char × Bool
  | 0, _ => ([], false)
  | _, [] => ([], false)
  | fuel + 1, '\\' :: rest =>
    if rest.head? = some 'c' then ([], true)
    else
      let (c, rest) := (reader rest).getD ('\\', rest)
      let (more, ended) := undo reader fuel rest
      (c :: more, ended)
  | fuel + 1, c :: rest =>
    let (more, ended) := undo reader fuel rest
    (c :: more, ended)

end SourceJar.Tool.Escape
