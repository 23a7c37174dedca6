import SourceJar.Tool.Escape

/-!
`echo`: writes its arguments, with blanks between them and a line end after them.

The tool undoes escapes when asked to; the one that is part of the shell always does, and has only the
option to leave out the line end.
-/

namespace SourceJar.Tool.Echo

/-- What `echo` is told. -/
structure Style where
  lineEnd : Bool := true
  escapes : Bool := false

/-- Reads the options: words of a dash and known letters, at the start. -/
def styleOf (s : Style) : List String → Style × List String
  | [] => (s, [])
  | word :: rest =>
    match word.toList with
    | '-' :: c :: letters =>
      if (c :: letters).all ['n', 'e', 'E'].contains then
        let s := (c :: letters).foldl (fun (s : Style) c =>
          if c = 'n' then { s with lineEnd := false } else { s with escapes := c = 'e' }) s
        styleOf s rest
      else (s, word :: rest)
    | _ => (s, word :: rest)

/-- Reads what follows a backslash. -/
def escape? (text : List Char) : Option (Char × List Char) :=
  match text with
  | [] => none
  | 'x' :: rest =>
    match Escape.takeDigits 16 2 rest with
    | ([], _) => none
    | (digits, rest) => some (Escape.byteOf 16 digits, rest)
  | c :: rest => (Escape.octalAfterZero? text).or ((Escape.control? c).map (·, rest))

/-- Reads what follows a backslash, in the shell. -/
def shellEscape? (text : List Char) : Option (Char × List Char) :=
  match text with
  | [] => none
  | c :: rest => (Escape.octalAfterZero? text).or ((Escape.control? c).map (·, rest))

/-- Writes words with blanks between them. -/
def words (s : Style) (reader : List Char → Option (Char × List Char)) (words : List String) :
    List Char :=
  let text := (" ".intercalate words).toList
  let ending := if s.lineEnd then ['\n'] else []
  if s.escapes then
    -- An escape ends with its argument: none reaches over the blank after it.
    let (written, ended) := Escape.undo reader text.length text
    if ended then written else written ++ ending
  else text ++ ending

/-- Writes its arguments. -/
def run : Tool := pureTool fun arguments _ =>
  if arguments = ["--help"] || arguments = ["--version"] then {}
  else
    let (s, rest) := styleOf {} arguments
    success (octets (String.ofList (words s escape? rest)))

/-- What the shell's own `echo` writes. -/
def inShell (arguments : List String) : List Char :=
  match arguments with
  | "-n" :: rest => words ⟨false, true⟩ shellEscape? rest
  | rest => words ⟨true, true⟩ shellEscape? rest

end SourceJar.Tool.Echo
