import SourceJar.Text.Split

/-!
Blank characters: those with the Unicode property White_Space.

`trim` takes them off both ends of a text, and `words` are the maximal runs free of them.
-/

namespace SourceJar.Text

/-- Whether a character is white space: tab to carriage return, space, next line, the no-break
space, and the spaces and separators of the general punctuation, Ogham and ideographic blocks. -/
def isBlank (c : Char) : Bool :=
  let n := c.toNat
  (0x09 ≤ n && n ≤ 0x0D) || n == 0x20 || n == 0x85 || n == 0xA0 || n == 0x1680 ||
    (0x2000 ≤ n && n ≤ 0x200A) || n == 0x2028 || n == 0x2029 || n == 0x202F || n == 0x205F ||
    n == 0x3000

/-- The text without blanks at its two ends. -/
def trim (text : String) : String :=
  String.ofList ((text.toList.dropWhile isBlank).reverse.dropWhile isBlank).reverse

/-- Whether a text has nothing but blanks. -/
def isAllBlank (text : String) : Bool := text.toList.all isBlank

/-- The pieces between blanks, empty ones included. -/
def piecesBetweenBlanks : List Char → List (List Char)
  | [] => [[]]
  | c :: rest =>
    if isBlank c then [] :: piecesBetweenBlanks rest
    else
      match piecesBetweenBlanks rest with
      | [] => [[c]]
      | piece :: pieces => (c :: piece) :: pieces

/-- The maximal runs of characters that are not blank, in order. -/
def words (text : String) : List String :=
  ((piecesBetweenBlanks text.toList).filter (· ≠ [])).map String.ofList

/-- Whether two texts agree when ASCII letters are compared without case. -/
def equalIgnoringAsciiCase (a b : String) : Bool :=
  a.toList.map Char.toLower == b.toList.map Char.toLower

/-- The text with every occurrence of one character replaced. -/
def replaceChar (old new : Char) (text : String) : String :=
  String.ofList (text.toList.map fun c => if c = old then new else c)

end SourceJar.Text
