import SourceJar.Tool.Quoting

/-!
The options among the arguments of a tool.

A tool has options of one letter and options with long names; either may take a value. Letters can be
joined in one word, a long name can be cut short as long as it stays distinct, and `--` ends the
options. Unless a tool keeps its arguments in order, options may stand after operands. Options are
read up to the first fault, so of two faults the earlier one is found.
-/

namespace SourceJar.Tool

/-- Whether an option has a value. -/
inductive Value where
  | none
  | required
  | optional
  deriving DecidableEq, Repr

/-- The options of a tool. A long name stands for a key, which is a letter or the name itself. -/
structure Options where
  letters : List (Char × Value)
  names : List (String × String × Value)
  /-- Whether the first operand ends the options. -/
  inOrder : Bool := false

/-- What is found among the arguments. -/
inductive Item where
  | option (key : String) (value : Option String)
  | fault (message : String)
  deriving DecidableEq, Repr

def Item.isFault : Item → Bool
  | .fault _ => true
  | .option .. => false

namespace Options

/-- The long names that every tool has. -/
def common : List (String × String × Value) := [("help", "help", .none), ("version", "version", .none)]

/-- The long names that a word can stand for: that name itself, or else all that start with it. -/
def candidates (o : Options) (word : String) : List (String × String × Value) :=
  match o.names.filter fun (name, _) => name = word with
  | [] => o.names.filter fun (name, _) => word.toList.isPrefixOf name.toList
  | same => same

/-- Whether all candidates mean the same option. -/
def agree : List (String × String × Value) → Bool
  | [] => false
  | (_, key, value) :: rest => rest.all fun (_, otherKey, otherValue) =>
    otherKey = key && otherValue = value

/-- Reads a word with a long name; the following arguments may hold its value. -/
def longOption (o : Options) (word : String) (rest : List String) : Item × List String :=
  let (written, given) := match Split.cutFirst? '=' word.toList with
    | some (name, value) => (String.ofList name, some (String.ofList value))
    | none => (word, none)
  let found := o.candidates written
  match found with
  | [] => (.fault s!"unrecognized option '--{word}'", rest)
  | (name, key, kind) :: _ =>
    if !agree found then
      let all := String.join (found.map fun (name, _) => s!" '--{name}'")
      (.fault s!"option '--{word}' is ambiguous; possibilities:{all}", rest)
    else
      match kind, given with
      | .none, some _ => (.fault s!"option '--{name}' doesn't allow an argument", rest)
      | .required, none =>
        match rest with
        | value :: rest => (.option key (some value), rest)
        | [] => (.fault s!"option '--{name}' requires an argument", rest)
      | _, given => (.option key given, rest)

/-- Reads the letters of a word; the following arguments may hold the value of the last one. -/
def letterOptions (o : Options) : List Char → List String → List Item × List String
  | [], rest => ([], rest)
  | c :: letters, rest =>
    let key := String.singleton c
    match o.letters.lookup c with
    | none => ([.fault ("invalid option -- '" ++ key ++ "'")], rest)
    | some .none =>
      let (items, rest) := o.letterOptions letters rest
      (.option key none :: items, rest)
    | some .optional =>
      ([.option key (if letters.isEmpty then none else some (String.ofList letters))], rest)
    | some .required =>
      if !letters.isEmpty then ([.option key (some (String.ofList letters))], rest)
      else
        match rest with
        | value :: rest => ([.option key (some value)], rest)
        | [] => ([.fault ("option requires an argument -- '" ++ key ++ "'")], rest)

/-- The options up to the first fault, and the operands. Each word is read once, so `fuel` is their
number. -/
def scanWords (o : Options) : (fuel : Nat) → List String → List Item × List String
  | 0, rest => ([], rest)
  | _, [] => ([], [])
  | fuel + 1, word :: rest =>
    match word.toList with
    | ['-', '-'] => ([], rest)
    | '-' :: '-' :: name =>
      let (item, rest) := o.longOption (String.ofList name) rest
      if Item.isFault item then ([item], rest)
      else
        let (items, operands) := o.scanWords fuel rest
        (item :: items, operands)
    | '-' :: c :: letters =>
      let (found, rest) := o.letterOptions (c :: letters) rest
      if found.any Item.isFault then (found, rest)
      else
        let (items, operands) := o.scanWords fuel rest
        (found ++ items, operands)
    | _ =>
      if o.inOrder then ([], word :: rest)
      else
        let (items, operands) := o.scanWords fuel rest
        (items, word :: operands)

/-- The options up to the first fault, and the operands. -/
def scan (o : Options) (arguments : List String) : List Item × List String :=
  o.scanWords arguments.length arguments

/-- Options without values, each a letter with a long name. -/
def flags (pairs : List (Char × String)) (inOrder : Bool) : Options where
  letters := pairs.map fun (c, _) => (c, .none)
  names := (pairs.filter fun (_, name) => name ≠ "").map
    (fun (c, name) => (name, String.singleton c, .none)) ++ common
  inOrder := inOrder

end Options

/-- Goes through options in order with a step that may end the tool. A fault ends it with advice, and
so do the options that ask for help or for the version, without output. -/
def applyOptions {α : Type} (c : Context) (step : α → String → Option String → Except Outcome α) :
    α → List Item → Except Outcome α
  | state, [] => .ok state
  | _, .fault message :: _ => .error (c.misuse message)
  | state, .option key value :: rest =>
    if key = "help" || key = "version" then .error {}
    else do applyOptions c step (← step state key value) rest

/-- A word of a table on a line of its own, and words after it that mean the same beside it. -/
def wordLines {α : Type} [DecidableEq α] : (before : Option α) → List (String × α) → String
  | _, [] => ""
  | before, (word, meaning) :: rest =>
    (if before = some meaning then s!", '{word}'" else s!"\n  - '{word}'") ++
      wordLines (some meaning) rest

/-- What a word means as the value of an option: it can be cut short as long as its meaning is
clear. -/
def meaningOf {α : Type} [DecidableEq α] (c : Context) (option : String) (table : List (String × α))
    (word : String) : Except Outcome α :=
  let bad (kind : String) : Outcome :=
    c.misuse (s!"{kind} argument {quotedValue word} for '--{option}'\nValid arguments are:" ++
      wordLines none table)
  match table.lookup word with
  | some meaning => .ok meaning
  | none =>
    match table.filter fun (name, _) => word.toList.isPrefixOf name.toList with
    | [] => .error (bad "invalid")
    | (_, meaning) :: rest =>
      if rest.all fun (_, other) => other = meaning then .ok meaning else .error (bad "ambiguous")

/-- The keys of options without values, `.error` if there is a fault among them. -/
def optionKeys (c : Context) (items : List Item) : Except Outcome (List String) :=
  applyOptions c (fun keys key _ => .ok (keys ++ [key])) [] items

end SourceJar.Tool
