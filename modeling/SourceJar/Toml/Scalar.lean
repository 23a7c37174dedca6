import SourceJar.Text.Split
import SourceJar.Toml.Value

/-!
TOML strings, numbers and dates.

Readers take text off the front of the input and leave the rest. Numbers, dates and the other words
are read from a whole word, which ends where a value can end.
-/

namespace SourceJar.Toml

/-! ## Strings -/

/-- Whether a character may stand in a comment or a literal string. -/
def isPlain (c : Char) : Bool :=
  c == '\t' || (0x20 ≤ c.toNat && c.toNat ≠ 0x7F)

/-- The value of a hexadecimal digit. -/
def hexValue? (c : Char) : Option Nat :=
  if '0' ≤ c ∧ c ≤ '9' then some (c.toNat - '0'.toNat)
  else if 'a' ≤ c ∧ c ≤ 'f' then some (c.toNat - 'a'.toNat + 10)
  else if 'A' ≤ c ∧ c ≤ 'F' then some (c.toNat - 'A'.toNat + 10)
  else none

/-- Reads a code point of `digits` hexadecimal digits. -/
def codePoint? : (digits value : Nat) → List Char → Option (Char × List Char)
  | 0, value, rest => if value.isValidChar then some (Char.ofNat value, rest) else none
  | digits + 1, value, c :: rest => do codePoint? digits (value * 16 + (← hexValue? c)) rest
  | _ + 1, _, [] => none

/-- Reads what follows a backslash. -/
def escape? : List Char → Option (Char × List Char)
  | 'b' :: rest => some ('\x08', rest)
  | 't' :: rest => some ('\t', rest)
  | 'n' :: rest => some ('\n', rest)
  | 'f' :: rest => some ('\x0c', rest)
  | 'r' :: rest => some ('\r', rest)
  | '"' :: rest => some ('"', rest)
  | '\\' :: rest => some ('\\', rest)
  | 'u' :: rest => codePoint? 4 0 rest
  | 'U' :: rest => codePoint? 8 0 rest
  | _ => none

def isSpace (c : Char) : Bool := c == ' ' || c == '\t'

/-- Reads a line end. -/
def lineEnd? : List Char → Option (List Char)
  | '\n' :: rest => some rest
  | '\r' :: '\n' :: rest => some rest
  | _ => none

/-- Passes over blanks and line ends. -/
def skipBlank : List Char → List Char
  | ' ' :: rest => skipBlank rest
  | '\t' :: rest => skipBlank rest
  | '\n' :: rest => skipBlank rest
  | '\r' :: '\n' :: rest => skipBlank rest
  | rest => rest

/-- Reads a basic string up to its closing quote. -/
def basic? : Nat → List Char → Option (List Char × List Char)
  | 0, _ => none
  | _ + 1, [] => none
  | _ + 1, '"' :: rest => some ([], rest)
  | fuel + 1, '\\' :: rest => do
    let (c, rest) ← escape? rest
    let (text, rest) ← basic? fuel rest
    return (c :: text, rest)
  | fuel + 1, c :: rest => do
    guard (isPlain c)
    let (text, rest) ← basic? fuel rest
    return (c :: text, rest)

/-- Reads a literal string up to its closing quote. -/
def literal? : List Char → Option (List Char × List Char)
  | [] => none
  | '\'' :: rest => some ([], rest)
  | c :: rest => do
    guard (isPlain c)
    let (text, rest) ← literal? rest
    return (c :: text, rest)

/-- The text after an escaped line end, if one stands there. -/
def escapedLineEnd? (text : List Char) : Option (List Char) :=
  (lineEnd? (text.dropWhile isSpace)).map skipBlank

/-- Reads the end of a string over several lines, if it stands there: three quotes, with up to two
more before them that belong to the text. -/
def closing? (quote : Char) (text : List Char) : Option (List Char × List Char) :=
  let run := (text.takeWhile (· == quote)).length
  if run < 3 then none
  else
    let extra := min (run - 3) 2
    some (List.replicate extra quote, text.drop (3 + extra))

/-- Reads a basic string over several lines up to its closing quotes. -/
def basicLines? : Nat → List Char → Option (List Char × List Char)
  | 0, _ => none
  | fuel + 1, text =>
    match closing? '"' text with
    | some found => some found
    | none =>
      match text with
      | [] => none
      | '\\' :: rest =>
        match escapedLineEnd? rest with
        | some rest => basicLines? fuel rest
        | none => do
          let (c, rest) ← escape? rest
          let (text, rest) ← basicLines? fuel rest
          return (c :: text, rest)
      | c :: rest =>
        match lineEnd? (c :: rest) with
        | some rest => do
          let (text, rest) ← basicLines? fuel rest
          return ('\n' :: text, rest)
        | none => do
          guard (isPlain c)
          let (text, rest) ← basicLines? fuel rest
          return (c :: text, rest)

/-- Reads a literal string over several lines up to its closing quotes. -/
def literalLines? : Nat → List Char → Option (List Char × List Char)
  | 0, _ => none
  | fuel + 1, text =>
    match closing? '\'' text with
    | some found => some found
    | none =>
      match text with
      | [] => none
      | c :: rest =>
        match lineEnd? (c :: rest) with
        | some rest => do
          let (text, rest) ← literalLines? fuel rest
          return ('\n' :: text, rest)
        | none => do
          guard (isPlain c)
          let (text, rest) ← literalLines? fuel rest
          return (c :: text, rest)

/-- The text without a line end in front. -/
def dropLineEnd (text : List Char) : List Char := (lineEnd? text).getD text

/-- Reads a string of any form. -/
def string? (text : List Char) : Option (String × List Char) :=
  let found := match text with
    | '"' :: '"' :: '"' :: rest => basicLines? (rest.length + 1) (dropLineEnd rest)
    | '\'' :: '\'' :: '\'' :: rest => literalLines? (rest.length + 1) (dropLineEnd rest)
    | '"' :: rest => basic? (rest.length + 1) rest
    | '\'' :: rest => literal? rest
    | _ => none
  found.map fun (text, rest) => (String.ofList text, rest)

/-! ## Numbers -/

/-- Reads digits with single underscores between them; the digits alone are left. -/
def digits? (isDigit : Char → Bool) : List Char → Option (List Char)
  | [] => none
  | [c] => if isDigit c then some [c] else none
  | c :: '_' :: rest => if isDigit c then (digits? isDigit rest).map (c :: ·) else none
  | c :: rest => if isDigit c then (digits? isDigit rest).map (c :: ·) else none

/-- The number that digits of a base stand for. -/
def valueOf (base : Nat) (digits : List Char) : Nat :=
  digits.foldl (fun value c => value * base + (hexValue? c).getD 0) 0

/-- Whether an integer fits into 64 bits. -/
def fits (n : Int) : Bool := -9223372036854775808 ≤ n && n ≤ 9223372036854775807

/-- Decimal digits that do not start with a needless zero. -/
def decimalDigits? (word : List Char) : Option (List Char) := do
  let digits ← digits? Char.isDigit word
  guard (digits.length = 1 || digits.head? ≠ some '0')
  return digits

/-- A word's sign and the rest of it. -/
def splitSign : List Char → Bool × List Char
  | '-' :: rest => (true, rest)
  | '+' :: rest => (false, rest)
  | rest => (false, rest)

/-- Reads a word as an integer. -/
def integer? (word : List Char) : Option Int := do
  let value ← match word with
    | '0' :: 'x' :: rest =>
      (digits? (fun c => (hexValue? c).isSome) rest).map fun ds => (valueOf 16 ds : Int)
    | '0' :: 'o' :: rest =>
      (digits? (fun c => '0' ≤ c ∧ c ≤ '7') rest).map fun ds => (valueOf 8 ds : Int)
    | '0' :: 'b' :: rest =>
      (digits? (fun c => c = '0' ∨ c = '1') rest).map fun ds => (valueOf 2 ds : Int)
    | _ =>
      let (negative, rest) := splitSign word
      (decimalDigits? rest).map fun ds =>
        if negative then -(valueOf 10 ds : Int) else (valueOf 10 ds : Int)
  guard (fits value)
  return value

/-- Whether `mantissa · 10 ^ exponent` rounds to a finite number: whether it lies below the middle
between the greatest finite number and the next power of two. -/
def isFiniteDecimal (mantissa : List Char) (exponent : Int) : Bool :=
  let value := valueOf 10 mantissa
  let limit := Nat.pow 2 1024 - Nat.pow 2 970
  let magnitude := ((Nat.toDigits 10 value).length : Int) + exponent
  if value = 0 ∨ magnitude < 300 then true
  else if 400 < magnitude then false
  else value * Nat.pow 10 exponent.toNat < limit * Nat.pow 10 (-exponent).toNat

/-- Whether a word is a float. One that is too great is none. -/
def isFloat (word : List Char) : Bool :=
  let (negative, body) := splitSign word
  if body = "inf".toList ∨ body = "nan".toList then true
  else
    let (mantissa, exponent) :=
      match Split.cutFirst? 'e' (body.map fun c => if c = 'E' then 'e' else c) with
      | some (before, after) => (before, some after)
      | none => (body, none)
    let (whole, fraction) := match Split.cutFirst? '.' mantissa with
      | some (before, after) => (before, some after)
      | none => (mantissa, none)
    let exponentValue : Option Int := match exponent with
      | none => some 0
      | some text =>
        let (down, digits) := splitSign text
        (digits? Char.isDigit digits).map fun ds =>
          if down then -(valueOf 10 ds : Int) else (valueOf 10 ds : Int)
    let fractionDigits : Option (List Char) := match fraction with
      | none => some []
      | some text => digits? Char.isDigit text
    match decimalDigits? whole, fractionDigits, exponentValue with
    | some wholeDigits, some fractionDigits, some e =>
      (fraction.isSome || exponent.isSome) &&
        (negative || isFiniteDecimal (wholeDigits ++ fractionDigits) (e - fractionDigits.length))
    | _, _, _ => false

/-! ## Dates -/

/-- Reads a number of exactly `count` digits. -/
def fixedDigits? (count : Nat) (text : List Char) : Option (Nat × List Char) :=
  let digits := text.take count
  if digits.length = count ∧ digits.all Char.isDigit then some (valueOf 10 digits, text.drop count)
  else none

/-- Passes over one character. -/
def expect? (c : Char) : List Char → Option (List Char)
  | d :: rest => if c = d then some rest else none
  | [] => none

/-- The number of days in a month. -/
def daysIn (year month : Nat) : Nat :=
  if month = 2 then
    if (year % 4 = 0 ∧ year % 100 ≠ 0) ∨ year % 400 = 0 then 29 else 28
  else if month = 4 ∨ month = 6 ∨ month = 9 ∨ month = 11 then 30
  else 31

/-- Reads a date. -/
def date? (text : List Char) : Option (List Char) := do
  let (year, text) ← fixedDigits? 4 text
  let text ← expect? '-' text
  let (month, text) ← fixedDigits? 2 text
  let text ← expect? '-' text
  let (day, text) ← fixedDigits? 2 text
  guard (1 ≤ month && month ≤ 12 && 1 ≤ day && day ≤ daysIn year month)
  return text

/-- Reads a time of day. -/
def time? (text : List Char) : Option (List Char) := do
  let (hour, text) ← fixedDigits? 2 text
  let text ← expect? ':' text
  let (minute, text) ← fixedDigits? 2 text
  let text ← expect? ':' text
  let (second, text) ← fixedDigits? 2 text
  guard (hour ≤ 23 && minute ≤ 59 && second ≤ 60)
  match text with
  | '.' :: c :: rest => if c.isDigit then some (rest.dropWhile Char.isDigit) else none
  | '.' :: [] => none
  | _ => some text

/-- Reads the distance from universal time, if one stands there. -/
def offset? : List Char → Option (List Char)
  | 'Z' :: rest => some rest
  | 'z' :: rest => some rest
  | c :: rest =>
    if c = '+' ∨ c = '-' then do
      let (hour, rest) ← fixedDigits? 2 rest
      let rest ← expect? ':' rest
      let (minute, rest) ← fixedDigits? 2 rest
      guard (hour ≤ 23 && minute ≤ 59)
      return rest
    else some (c :: rest)
  | [] => some []

/-- Reads a date, a time, or both with or without an offset. A blank may stand between date and
time. -/
def datetime? (text : List Char) : Option (List Char) :=
  match date? text with
  | some rest =>
    match rest with
    | c :: after =>
      if c = 'T' ∨ c = 't' then (time? after).bind offset?
      else if c = ' ' then
        match time? after with
        | some rest => offset? rest
        | none => some rest
      else some rest
    | [] => some rest
  | none => time? text

/-! ## Words -/

/-- Whether a character ends a word. -/
def endsWord (c : Char) : Bool :=
  isSpace c || c == '\n' || c == '\r' || c == ',' || c == ']' || c == Char.ofNat 0x7D || c == '#'

/-- What a word that is neither a date nor a string stands for. -/
def word? (word : List Char) : Option Toml :=
  if word = "true".toList then some (.boolean true)
  else if word = "false".toList then some (.boolean false)
  else
    match integer? word with
    | some n => some (.integer n)
    | none => if isFloat word then some .float else none

/-- Reads a number, a date or another word. -/
def scalar? (text : List Char) : Option (Toml × List Char) :=
  match datetime? text with
  | some rest => some (.datetime, rest)
  | none =>
    let word := text.takeWhile fun c => !endsWord c
    (word? word).map fun value => (value, text.drop word.length)

end SourceJar.Toml
