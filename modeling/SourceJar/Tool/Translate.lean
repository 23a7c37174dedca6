import SourceJar.Tool.Options

/-!
`tr`: replaces, deletes or squeezes bytes.

A set of bytes is written as a row of elements: single bytes, ranges, classes such as `[:alpha:]`,
bytes that stand for their equals such as `[=a=]`, and repetitions such as `[a*5]`, of which one may
have no count and then fills the set up. Where bytes are replaced, the classes of upper and lower case
letters stand for each other letter by letter.
-/

namespace SourceJar.Tool.Translate

/-! ## Elements -/

/-- A character of a written set, and whether it was written with a backslash. -/
structure Written where
  char : Char
  escaped : Bool := false
  deriving DecidableEq, Repr

/-- Whether a unit is a character that means something here. -/
def Written.means (u : Written) (c : Char) : Bool := u.char = c && !u.escaped

/-- An octal escape: up to three digits, as long as the value is a byte; a third digit that makes it
more is a character of its own, with a warning. -/
def octalEscape (c : Context) (digits : List Char) : Written × Nat × String :=
  let value (n : Nat) : Nat := digitsValue 8 (digits.take n)
  if digits.length = 3 && 255 < value 3 then
    let shown (n : Nat) : String := String.ofList (digits.take n)
    let last := String.ofList (digits.drop 2)
    (⟨Char.ofNat (value 2), true⟩, 2,
      s!"{c.name}: warning: the ambiguous octal escape \\{shown 3} is being\n\t" ++
      s!"interpreted as the 2-byte sequence \\0{shown 2}, {last}\n")
  else (⟨Char.ofNat (value digits.length), true⟩, digits.length, "")

/-- The units of a written set, and warnings about it. -/
def units (c : Context) : (fuel : Nat) → List Char → List Written × String
  | 0, _ => ([], "")
  | _, [] => ([], "")
  | _ + 1, ['\\'] =>
    ([⟨'\\', false⟩],
      s!"{c.name}: warning: an unescaped backslash at end of string is not portable\n")
  | fuel + 1, '\\' :: letter :: rest =>
    let octal := ((letter :: rest).take 3).takeWhile fun d => (digitIn? 8 d).isSome
    if octal.isEmpty then
      let char := ([('a', '\x07'), ('b', '\x08'), ('f', '\x0c'), ('n', '\n'), ('r', '\r'),
        ('t', '\t'), ('v', '\x0b')].lookup letter).getD letter
      let (others, warnings) := units c fuel rest
      (⟨char, true⟩ :: others, warnings)
    else
      let (unit, length, warning) := octalEscape c octal
      let (others, warnings) := units c fuel ((letter :: rest).drop length)
      (unit :: others, warning ++ warnings)
  | fuel + 1, char :: rest =>
    let (others, warnings) := units c fuel rest
    (⟨char, false⟩ :: others, warnings)

/-- The named classes. -/
inductive CharClass where
  | alnum | alpha | blank | cntrl | digit | graph | lower | print | punct | space | upper | xdigit
  deriving DecidableEq, Repr

/-- The classes by their names. -/
def classes : List (String × CharClass) :=
  [("alnum", .alnum), ("alpha", .alpha), ("blank", .blank), ("cntrl", .cntrl), ("digit", .digit),
    ("graph", .graph), ("lower", .lower), ("print", .print), ("punct", .punct), ("space", .space),
    ("upper", .upper), ("xdigit", .xdigit)]

/-- Whether a character is in a class. -/
def CharClass.has (k : CharClass) (c : Char) : Bool :=
  match k with
  | .alnum => c.isAlphanum
  | .alpha => c.isAlpha
  | .blank => c == ' ' || c == '\t'
  | .cntrl => c.toNat < 0x20 || c.toNat == 0x7F
  | .digit => c.isDigit
  | .graph => isPrintable c && c != ' '
  | .lower => c.isLower
  | .print => isPrintable c
  | .punct => isPrintable c && c != ' ' && !c.isAlphanum
  | .space => isSpace c
  | .upper => c.isUpper
  | .xdigit => (digitIn? 16 c).isSome

/-- Every character, in order. -/
def everyChar : List Char := (List.range 256).map Char.ofNat

/-- An element of a set. -/
inductive Element where
  | char (c : Char)
  | range (first last : Char)
  | named (k : CharClass)
  | equals (c : Char)
  /-- A repetition without a count fills the set up. -/
  | repeated (c : Char) (count : Option Nat)
  deriving DecidableEq, Repr

/-- How many repetitions are written out; no set to be replaced has as many members. -/
def maxRepeats : Nat := 65536

/-- The characters of an element; `filling` is what a repetition without a count stands for. -/
def Element.chars (filling : Nat) : Element → List Char
  | .char c => [c]
  | .range first last =>
    (List.range (last.toNat + 1 - first.toNat)).map fun i => Char.ofNat (first.toNat + i)
  | .named k => everyChar.filter k.has
  | .equals c => [c]
  | .repeated c count => List.replicate (min (count.getD filling) maxRepeats) c

/-- A unit as complaints show it. -/
def shownUnit (c : Char) : String :=
  if c = '\\' then "\\\\" else if isPrintable c then String.singleton c
  else String.ofList (escapeOf c)

/-- An end of a range in a complaint. -/
def shownEnd (c : Char) : String :=
  if isPrintable c then String.singleton c else String.ofList ('\\' :: digitsIn 8 3 c.toNat)

def shownUnits (us : List Written) : String := String.join (us.map fun u => shownUnit u.char)

/-- The units up to a closing mark and bracket, and what follows these. -/
def closed? (mark : Char) : List Written → Option (List Written × List Written)
  | a :: b :: rest =>
    if a.means mark && b.means ']' then some ([], rest)
    else (closed? mark (b :: rest)).map fun (inside, rest) => (a :: inside, rest)
  | _ => none

/-- A row of units of which each is written without a backslash, up to a closing bracket. -/
def toBracket? : List Written → Option (List Written × List Written)
  | [] => none
  | u :: rest =>
    if u.escaped then none
    else if u.char = ']' then some ([], rest)
    else (toBracket? rest).map fun (inside, rest) => (u :: inside, rest)

/-- Reads a repetition after its opening bracket; `none` if there is none. -/
def repetition? : List Written → Option (Except String (Element × List Written))
  | c :: star :: rest =>
    if star.means '*' then
      (toBracket? rest).map fun (count, rest) =>
        let digits := count.map Written.char
        let base := if digits.head? = some '0' then 8 else 10
        if digits.isEmpty then .ok (.repeated c.char none, rest)
        else if digits.all (fun d => (digitIn? base d).isSome) &&
            digitsValue base digits < 0x8000000000000000 then
          let n := digitsValue base digits
          .ok (.repeated c.char (if n = 0 then none else some n), rest)
        else .error s!"invalid repeat count {quotedValue (shownUnits count)} in [c*n] construct"
    else none
  | _ => none

/-- Whether units start with a star, digits and a bracket. -/
def isCountEnd : List Written → Bool
  | star :: rest =>
    star.means '*' &&
      match rest.dropWhile fun u => u.char.isDigit with
      | u :: _ => u.means ']'
      | [] => false
  | [] => false

/-- Reads a class or the equals of a character after its opening bracket; `none` if there is none, or
if it can be a repetition instead. -/
def bracketed? : List Written → Option (Except String (Element × List Written))
  | mark :: rest =>
    if mark.means ':' || mark.means '=' then
      match closed? mark.char rest with
      | none => none
      | some (inside, after) =>
        let name := String.ofList (inside.map Written.char)
        if inside.isEmpty then
          some (.error (if mark.char = ':' then "missing character class name '[::]'"
            else "missing equivalence class character '[==]'"))
        else if mark.char = ':' then
          match classes.lookup name with
          | some k => some (.ok (.named k, after))
          | none =>
            if isCountEnd rest then none
            else some (.error s!"invalid character class {quotedValue (shownUnits inside)}")
        else
          match inside with
          | [u] => some (.ok (.equals u.char, after))
          | _ =>
            if isCountEnd rest then none
            else
              some (.error (s!"{shownUnits inside}: equivalence class operand must be " ++
                "a single character"))
    else none
  | [] => none

/-- The elements of a set. Each takes at least one unit, so `fuel` is their number. -/
def elements : (fuel : Nat) → List Written → Except String (List Element)
  | 0, _ => .ok []
  | fuel + 1, a :: b :: c :: rest => do
    let opened := a.means '['
    let special : Option (Except String (Element × List Written)) :=
      if opened then (bracketed? (b :: c :: rest)).or (repetition? (b :: c :: rest)) else none
    match special with
    | some (.error e) => throw e
    | some (.ok (element, rest)) => return element :: (← elements fuel rest)
    | none =>
      if b.means '-' then
        if c.char < a.char then
          throw (s!"range-endpoints of '{shownEnd a.char}-{shownEnd c.char}' " ++
            "are in reverse collating sequence order")
        return .range a.char c.char :: (← elements fuel rest)
      else return .char a.char :: (← elements fuel (b :: c :: rest))
  | _, rest => .ok (rest.map fun u => .char u.char)

/-- The elements of a written set; a fault comes after the warnings. -/
def readSet (c : Context) (text : String) : String × Except String (List Element) :=
  let (us, warnings) := units c text.length text.toList
  (warnings, elements us.length us)

/-! ## Mappings -/

/-- How many characters elements have, with nothing to fill up. -/
def size (es : List Element) : Nat := (es.map fun e => (e.chars 0).length).foldl (· + ·) 0

/-- The characters of elements. -/
def charsOf (filling : Nat) (es : List Element) : List Char := es.flatMap (Element.chars filling)

def Element.isFilling : Element → Bool
  | .repeated _ none => true
  | _ => false

def Element.isEquals : Element → Bool
  | .equals _ => true
  | _ => false

def Element.isNamed : Element → Bool
  | .named _ => true
  | _ => false

/-- Whether an element is the class of upper or of lower case letters. -/
def Element.isCase : Element → Bool
  | .named .upper => true
  | .named .lower => true
  | _ => false

/-- A character of a set, with the case class that it is the first of. -/
structure Member where
  char : Char
  case : Option CharClass := none

/-- The characters of a set for replacing: a case class counts as its first letter if it meets
another in the other set, so both sets are gone through together. -/
inductive Pairing where
  | pair (source target : Char)
  | upper
  | lower

/-- The members of elements in order; the first of a case class is marked. -/
def members (filling : Nat) (es : List Element) : List Member :=
  es.flatMap fun e =>
    match e with
    | .named k =>
      if e.isCase then
        match everyChar.filter k.has with
        | first :: rest => ⟨first, some k⟩ :: rest.map fun c => ⟨c, none⟩
        | [] => []
      else (e.chars filling).map fun c => ⟨c, none⟩
    | e => (e.chars filling).map fun c => ⟨c, none⟩

/-- How many letters a case class has after its first. -/
def caseRest : Nat := 25

/-- Goes through two sets together; `none` if a case class of the second does not meet one of the
first. -/
def pairings : (fuel : Nat) → List Member → List Member → Option (List Pairing)
  | 0, _, _ => some []
  | fuel + 1, a :: source, b :: target =>
    match b.case with
    | some k =>
      match a.case with
      | none => none
      | some j =>
        let rest := pairings fuel (source.drop caseRest) (target.drop caseRest)
        let pairing := if j = .lower && k = .upper then Pairing.upper
          else if j = .upper && k = .lower then Pairing.lower
          else Pairing.pair a.char b.char
        rest.map (pairing :: ·)
    | none => (pairings fuel source target).map (.pair a.char b.char :: ·)
  | _ + 1, [], b :: _ => if b.case.isSome then none else some []
  | _ + 1, _, [] => some []

/-- Replaces a character as pairings say; the last that speaks of it counts. -/
def replaced (ps : List Pairing) (c : Char) : Char :=
  ps.foldl (fun found p =>
    match p with
    | .pair source target => if source = c then target else found
    | .upper => if c.isLower then c.toUpper else found
    | .lower => if c.isUpper then c.toLower else found) c

/-- A row of bytes in which repeats of the given ones are dropped. -/
def squeeze (which : Char → Bool) : Bytes → Bytes
  | a :: b :: rest =>
    if a == b && which (Char.ofNat a.toNat) then squeeze which (b :: rest)
    else a :: squeeze which (b :: rest)
  | rest => rest

/-! ## The tool -/

/-- What is done with the bytes. -/
structure Request where
  complement : Bool
  delete : Bool
  squeezes : Bool
  truncate : Bool

def options : Options where
  letters := "AcCdst".toList.map fun c => (c, .none)
  names := [("complement", "c", .none), ("delete", "d", .none), ("squeeze-repeats", "s", .none),
    ("truncate-set1", "t", .none)] ++ Options.common
  inOrder := true

/-- The characters of the first set. -/
def sourceChars (r : Request) (first : List Element) : List Char :=
  let chars := charsOf 0 first
  if r.complement then everyChar.filter fun c => !chars.contains c else chars

/-- Why two sets cannot be used for replacing, if so: case classes that do not meet, or a second set
that is too short to be extended. Case classes count as one character there. -/
def extension (r : Request) (first second : List Element) (sourceSize : Nat) :
    Except String (List Element) := do
  let filling := sourceSize - size second
  if !r.complement && second.any Element.isNamed &&
      (pairings 1024 (members 0 first) (members filling second)).isNone then
    throw "misaligned [:upper:] and/or [:lower:] construct"
  let folded := !r.complement && second.any Element.isNamed
  let cases := (second.filter Element.isCase).length * (if folded then caseRest else 0)
  let sourceLength := sourceSize - cases
  let targetLength := (charsOf filling second).length - cases
  let extended ←
    if sourceLength ≤ targetLength || r.truncate then pure second
    else if targetLength = 0 then
      throw "when not truncating set1, string2 must be non-empty"
    else
      match second.getLast? with
      | some (.named _) =>
        throw ("when translating with string1 longer than string2,\n" ++
          "the latter string must not end with a character class")
      | some (.char c) => pure (second ++ [.repeated c (some (sourceLength - targetLength))])
      | some (.range _ c) => pure (second ++ [.repeated c (some (sourceLength - targetLength))])
      | some (.equals c) => pure (second ++ [.repeated c (some (sourceLength - targetLength))])
      | some (.repeated c _) => pure (second ++ [.repeated c (some (sourceLength - targetLength))])
      | none => pure second
  let target := charsOf filling extended
  if r.complement && first.any Element.isNamed &&
      !(target.length = sourceSize && target.all fun c => some c = target.head?) then
    throw ("when translating with complemented character classes,\n" ++
      "string2 must map all characters in the domain to one")
  return extended

/-- Replaces the bytes of the first set by those of the second. -/
def translated (r : Request) (first second : List Element) (input : Bytes) :
    Except String Bytes := do
  if first.any Element.isFilling then
    throw "the [c*] repeat construct may not appear in string1"
  if 1 < (second.filter Element.isFilling).length then
    throw "only one [c*] repeat construct may appear in string2"
  if second.any Element.isEquals then
    throw "[=c=] expressions may not appear in string2 when translating"
  if second.any fun e => e.isNamed && !e.isCase then
    throw ("when translating, the only character classes that may appear in\n" ++
      "string2 are 'upper' and 'lower'")
  let source := sourceChars r first
  let filling := source.length - size second
  let second ← extension r first second source.length
  let ps := if r.complement then
      (source.zip (charsOf filling second)).map fun (a, b) => Pairing.pair a b
    else (pairings (source.length + 1024) (members 0 first) (members filling second)).getD []
  let table := (everyChar.map fun c => UInt8.ofNat (replaced ps c).toNat).toArray
  let output := input.map fun b => table.getD b.toNat b
  let kept := charsOf filling second
  return if r.squeezes then squeeze kept.contains output else output

/-- Deletes or squeezes bytes. -/
def reduced (r : Request) (first : List Element) (second : Option (List Element)) (input : Bytes) :
    Except String Bytes := do
  if first.any Element.isFilling then
    throw "the [c*] repeat construct may not appear in string1"
  match second with
  | some es =>
    if 1 < (es.filter Element.isFilling).length then
      throw "only one [c*] repeat construct may appear in string2"
    if es.any Element.isFilling then
      throw "the [c*] construct may appear in string2 only when translating"
  | none => pure ()
  let chars := sourceChars r first
  let inFirst (c : Char) : Bool := chars.contains c
  if r.delete then
    let left := input.filter fun b => !inFirst (Char.ofNat b.toNat)
    match second with
    | some es => return squeeze (charsOf 0 es).contains left
    | none => return left
  else return squeeze inFirst input

/-- The complaint about the number of sets, if it is wrong. -/
def countFault? (c : Context) (r : Request) (operands : List String) : Option Outcome :=
  let least := if r.delete = r.squeezes then 2 else 1
  let most := if r.delete && !r.squeezes then 1 else 2
  if operands.length < least then
    match operands.getLast? with
    | none => some (c.misuse "missing operand")
    | some last =>
      some (c.misuse (s!"missing operand after {quotedValue last}\n" ++
        (if r.squeezes then "Two strings must be given when both deleting and squeezing repeats."
         else "Two strings must be given when translating.")))
  else
    match operands.drop most with
    | [] => none
    | extra :: _ =>
      some (c.misuse (s!"extra operand {quotedValue extra}" ++
        (if operands.length = 2 then
          "\nOnly one string may be given when deleting without squeezing repeats." else "")))

/-- Replaces, deletes or squeezes bytes of the input. -/
def run : Tool := fun arguments c =>
  let (items, operands) := options.scan arguments
  match optionKeys c items with
  | .error r => (r, c)
  | .ok keys =>
    let r : Request := {
      complement := keys.contains "c" || keys.contains "C"
      delete := keys.contains "d"
      squeezes := keys.contains "s"
      truncate := keys.contains "t" }
    match countFault? c r operands with
    | some fault => (fault, c)
    | none =>
      let (warnings, first) := readSet c (operands.headD "")
      match first with
      | .error e => (both (remark warnings) (c.complaint e), c)
      | .ok first =>
        let (more, second) : String × Except String (Option (List Element)) :=
          match operands.drop 1 with
          | [] => ("", .ok none)
          | text :: _ =>
            let (warnings, second) := readSet c text
            (warnings, second.map some)
        let output : Except String Bytes := do
          match ← second, r.delete with
          | some second, false => translated r first second c.input
          | second, _ => reduced r first second c.input
        let warned := remark (warnings ++ more)
        match output, c.inputFault with
        | .error e, _ => (both warned (c.complaint e), c)
        | .ok _, some fault =>
          (both warned (c.complaint s!"read error: {fault.errno.text}"), c)
        | .ok output, none => (both warned (success output), { c with input := [] })

end SourceJar.Tool.Translate
