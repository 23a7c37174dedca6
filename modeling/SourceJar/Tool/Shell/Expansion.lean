import SourceJar.Tool.Shell.Arithmetic
import SourceJar.Tool.Shell.Pattern
import SourceJar.Tool.Shell.State

/-!
What words come to.

Parameters, commands and expressions are replaced by their values; what was not in quotes is then split
into fields, and fields that are patterns are replaced by the file names that match them. Running the
commands in words is left to the parameter `run`.
-/

namespace SourceJar.Tool.Shell

/-- What a word comes to before it is split. -/
inductive Mark where
  /-- A character; `splits`: it can part two fields. -/
  | char (c : Char) (quoted splits : Bool)
  /-- The end of a field. -/
  | edge
  /-- Quotes with nothing between them. -/
  | empty
  deriving DecidableEq, Repr

/-- Runs commands with their output going into a word: the output, and the state afterwards. -/
abbrev Capture := List Tree → State → Bytes × State

def marksOf (quoted splits : Bool) (text : List Char) : List Mark :=
  text.map fun c => .char c quoted splits

/-- The characters of marks. -/
def plainText (marks : List Mark) : List Char :=
  marks.filterMap fun
    | .char c .. => some c
    | _ => none

/-- The characters of marks, and whether they are in quotes. -/
def markedText (marks : List Mark) : List Marked :=
  marks.filterMap fun
    | .char c quoted _ => some (c, quoted)
    | _ => none

/-! ## Parameters -/

/-- The text between arguments that are joined. -/
def State.joint (s : State) : String :=
  match s.parameter? "IFS" with
  | some { value := some text, .. } => String.ofList (text.toList.take 1)
  | _ => " "

/-- The value of a parameter as one text. -/
def State.valueOf? (s : State) (name : String) : Option String :=
  match name with
  | "@" => some (s.joint.intercalate s.arguments)
  | "*" => some (s.joint.intercalate s.arguments)
  | "#" => some (toString s.arguments.length)
  | "?" => some (toString s.status)
  | "-" => some s.flagLetters
  | "$" => some (toString s.process)
  | "!" => s.lastProcess.map toString
  | "0" => some s.name
  | _ =>
    match number? name with
    | some n => s.arguments[n - 1]?
    | none => s.value? name

/-- The arguments in the place of a parameter that stands for all of them. -/
def allArguments (s : State) (name : String) (quoted full : Bool) : List Mark :=
  let one (argument : String) : List Mark :=
    if quoted then .empty :: marksOf true false argument.toList
    else marksOf false true argument.toList
  if quoted && (name = "*" || !full) then marksOf true false (s.joint.intercalate s.arguments).toList
  else if !full then marksOf false true (s.joint.intercalate s.arguments).toList
  else List.flatten ((s.arguments.map one).intersperse [.edge])

/-- A fault of a value in an expression. -/
def Arithmetic.Fault.message (text : List Char) : Fault → String
  | .expression message => s!"arithmetic expression: {message}: \"" ++ String.ofList text ++ "\""
  | .number text => s!"Illegal number: {text}"

/-- Sets the parameters that an expression assigns to, the first assignment first. -/
def assignAll (s : State) (pairs : List (String × Int)) : State :=
  pairs.foldr (fun (name, n) s => if s.jump.isSome then s else s.assign name (toString n)) s

/-- What goes in place of a text that starts with a tilde: the user's directory, or that of the user
whose name follows. -/
def tildeText (s : State) (text : List Char) : List Char :=
  match text with
  | '~' :: rest =>
    let name := String.ofList (rest.takeWhile (· ≠ '/'))
    let home := if name = "" then s.value? "HOME"
      else if name = "root" then some "/root"
      else none
    match home with
    | some home => home.toList ++ rest.dropWhile (· ≠ '/')
    | none => text
  | _ => text

/-- How words are expanded. -/
structure Manner where
  /-- Whether arguments become fields of their own. -/
  full : Bool
  /-- Whether text that is not in quotes can part fields. -/
  splits : Bool := false

/-- What a part of a word comes to; `depth` bounds how deep words nest. -/
def expandPart (capture : Capture) : (depth : Nat) → Manner → Part → State → List Mark × State
  | 0, _, _, s => ([], s)
  | depth + 1, m, part, s =>
    let expandWith (m : Manner) (word : Word) (s : State) : List Mark × State :=
      word.foldl (fun (marks, s) part =>
        if s.jump.isSome then (marks, s)
        else
          let (more, s) := expandPart capture depth m part s
          (marks ++ more, s)) ([], s)
    let valueMarks (quoted : Bool) (text : String) : List Mark :=
      marksOf quoted (!quoted) text.toList
    match part with
    | .text [] quoted => (if quoted then [.empty] else [], s)
    | .text text quoted => (marksOf quoted (!quoted && m.splits) text, s)
    | .output script quoted =>
      let (bytes, s) := capture script s
      let text := (ofOctets (bytes.filter (· ≠ 0))).toList
      let trimmed := (text.reverse.dropWhile (· == '\n')).reverse
      (marksOf quoted (!quoted) trimmed, s)
    | .value expression quoted =>
      let (marks, s) := expandWith { full := false } expression s
      let text := plainText marks
      if s.jump.isSome then ([], s)
      else
        match Arithmetic.evaluate s.valueOf? text with
        | .ok (n, assigned) => (valueMarks quoted (toString n), assignAll s assigned)
        | .error e => ([], s.abort (e.message text))
    | .parameter name change quoted =>
      let isAll := name = "@" || name = "*"
      let value := s.valueOf? name
      let kept : List Mark :=
        if isAll then allArguments s name quoted m.full else valueMarks quoted (value.getD "")
      let unset (s : State) : State := s.abort s!"{name}: parameter not set"
      let isMissing := value.isNone && s.hasFlag 'u'
      match change with
      | .keep => if isMissing then ([], unset s) else (kept, s)
      | .length =>
        if isMissing then ([], unset s)
        else (valueMarks quoted (toString (value.getD "").length), s)
      | .invalid => ([], s.abort "Bad substitution")
      | .trim atEnd longest pattern =>
        if isMissing then ([], unset s)
        else
          let (marks, s) := expandWith { full := false } pattern s
          let p := Pattern.ofMarked (markedText marks)
          if isAll && m.full && !(quoted && name = "*") then
            -- The arguments are trimmed as one text, and part again afterwards.
            let trimmed := p.trim atEnd longest
              (List.intercalate ['\x00'] (s.arguments.map String.toList))
            let fields := (Split.splitOn '\x00' trimmed).map fun field =>
              (if quoted then [.empty] else []) ++ marksOf quoted (!quoted) field
            (List.flatten (fields.intersperse [.edge]), s)
          else (valueMarks quoted (String.ofList (p.trim atEnd longest (value.getD "").toList)), s)
      | .fallback kind orEmpty word =>
        let isUnset := value.isNone || (orEmpty && value = some "")
        let word := match word with
          | .text text false :: rest => .text (tildeText s text) false :: rest
          | _ => word
        match kind with
        | .use =>
          if isUnset then expandWith { m with splits := !quoted } word s else (kept, s)
        | .replace =>
          if isUnset then ([], s) else expandWith { m with splits := !quoted } word s
        | .assign =>
          if isUnset then
            let (marks, s) := expandWith { full := false } word s
            let text := String.ofList (plainText marks)
            if s.jump.isSome then ([], s)
            else if !isName name.toList then
              ([], s.abort s!"{name}: bad variable name")
            else (valueMarks quoted text, s.assign name text)
          else (kept, s)
        | .complain =>
          if isUnset then
            let (marks, s) := expandWith { full := false } word s
            let message := String.ofList (plainText marks)
            let message := if !word.isEmpty then message
              else if orEmpty then "parameter not set or null" else "parameter not set"
            (if s.jump.isSome then ([], s) else ([], s.abort s!"{name}: {message}"))
          else (kept, s)

/-- How deep words can nest. -/
def maxWordDepth : Nat := 1000

/-- What a word comes to. -/
def expandMarks (capture : Capture) (m : Manner) (word : Word) (s : State) : List Mark × State :=
  word.foldl (fun (marks, s) part =>
    if s.jump.isSome then (marks, s)
    else
      let (more, s) := expandPart capture maxWordDepth m part s
      (marks ++ more, s)) ([], s)

/-! ## Fields -/

def isBlank (c : Char) : Bool := c == ' ' || c == '\t' || c == '\n'

/-- Whether a mark is a separator of a kind. -/
def isSeparator (separators : List Char) (wanted : Char → Bool) : Mark → Bool
  | .char c _ splits => splits && separators.contains c && wanted c
  | _ => false

/-- A field whose characters have come in reverse; one without characters is none unless it was
`started`. -/
def finishedField (started : Bool) (current : List Marked) : List (List Marked) :=
  if started || !current.isEmpty then [current.reverse] else []

/-- Splits marks into fields; `current` is, reversed, the field so far, and `started`: it is one even
if it is empty. -/
def fields (separators : List Char) :
    (fuel : Nat) → (current : List Marked) → (started : Bool) → List Mark → List (List Marked)
  | 0, _, _, _ => []
  | fuel + 1, current, started, marks =>
    let dropBlanks (marks : List Mark) : List Mark := marks.dropWhile (isSeparator separators isBlank)
    match marks with
    | [] => finishedField started current
    | .edge :: rest => finishedField started current ++ fields separators fuel [] false rest
    | .empty :: rest => fields separators fuel current true rest
    | .char c quoted splits :: rest =>
      if splits && separators.contains c then
        if isBlank c then
          match dropBlanks rest with
          | next :: more =>
            if isSeparator separators (fun c => !isBlank c) next then
              current.reverse :: fields separators fuel [] false (dropBlanks more)
            else
              finishedField started current ++ fields separators fuel [] false (next :: more)
          | [] => finishedField started current
        else current.reverse :: fields separators fuel [] false (dropBlanks rest)
      else fields separators fuel ((c, quoted) :: current) started rest

/-- Whether a word has all arguments in quotes in it. -/
def hasAllQuoted (word : Word) : Bool :=
  word.any fun
    | .parameter "@" .keep quoted => quoted
    | _ => false

/-- The fields that a word comes to. -/
def expandFields (capture : Capture) (word : Word) (s : State) : List String × State :=
  let word := match word with
    | .text text false :: rest => .text (tildeText s text) false :: rest
    | _ => word
  let (marks, s) := expandMarks capture { full := true } word s
  let marks := if hasAllQuoted word && s.arguments.isEmpty then marks.filter (· ≠ .empty) else marks
  let found := fields s.separators (marks.length + 1) [] false marks
  let names := found.flatMap fun field =>
    match if s.hasFlag 'f' then [] else Pattern.paths s.fs field with
    | [] => [String.ofList (field.map (·.1))]
    | paths => paths
  (names, s)

/-- The fields that words come to. -/
def expandAll (capture : Capture) (words : List Word) (s : State) : List String × State :=
  words.foldl (fun (found, s) word =>
    if s.jump.isSome then (found, s)
    else
      let (more, s) := expandFields capture word s
      (found ++ more, s)) ([], s)

/-- The text that a word comes to where it is not split. -/
def expandText (capture : Capture) (word : Word) (s : State) : String × State :=
  let word := match word with
    | .text text false :: rest => .text (tildeText s text) false :: rest
    | _ => word
  let (marks, s) := expandMarks capture { full := false } word s
  (String.ofList (plainText marks), s)

/-- The text with a tilde after each colon replaced, as in the value of an assignment. -/
def tildesInValue (s : State) (text : List Char) : List Char :=
  List.intercalate [':'] ((Split.splitOn ':' text).map (tildeText s))

/-- The value that the word of an assignment comes to. -/
def expandValue (capture : Capture) (word : Word) (s : State) : String × State :=
  let word := word.zipIdx.map fun (part, i) =>
    match part with
    | .text text false =>
      if i = 0 then .text (tildesInValue s text) false
      else
        match Split.cutFirst? ':' text with
        | some (before, after) => .text (before ++ ':' :: tildesInValue s after) false
        | none => part
    | _ => part
  let (marks, s) := expandMarks capture { full := false } word s
  (String.ofList (plainText marks), s)

/-- The pattern that a word comes to. -/
def expandPattern (capture : Capture) (word : Word) (s : State) : Pattern × State :=
  let (marks, s) := expandMarks capture { full := false } word s
  (Pattern.ofMarked (markedText marks), s)

end SourceJar.Tool.Shell
