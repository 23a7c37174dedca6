import SourceJar.Tool.Format

/-!
The value of an expression in a shell: whole numbers of 64 bits, parameters by their names, and
assignments to them.
-/

namespace SourceJar.Tool.Shell.Arithmetic

/-- What an expression is made of. -/
inductive Token where
  | number (n : Int)
  | name (name : String)
  | symbol (text : String)
  | bad
  deriving DecidableEq, Repr

/-- A number brought into 64 bits. -/
def wrap (n : Int) : Int := n.bmod 0x10000000000000000

/-- The symbols, longer ones first. -/
def symbols : List String :=
  ["<<=", ">>=", "&&", "||", "==", "!=", "<=", ">=", "<<", ">>", "+=", "-=", "*=", "/=", "%=", "&=", "^=",
    "|=", "+", "-", "*", "/", "%", "&", "^", "|", "<", ">", "=", "!", "~", "?", ":", "(", ")"]

/-- The tokens of an expression; the first bad one is the last. -/
def tokens : (fuel : Nat) → List Char → List Token
  | 0, _ => []
  | _, [] => []
  | fuel + 1, c :: rest =>
    if c = ' ' || c = '\t' || c = '\n' then tokens fuel rest
    else if c.isDigit then
      let r := Format.readInteger true (c :: rest)
      .number r.value :: tokens fuel r.rest
    else if c.isAlpha || c = '_' then
      let isPart (c : Char) : Bool := c.isAlphanum || c = '_'
      .name (String.ofList ((c :: rest).takeWhile isPart)) ::
        tokens fuel ((c :: rest).dropWhile isPart)
    else
      match symbols.find? fun s => s.toList.isPrefixOf (c :: rest) with
      | some s => .symbol s :: tokens fuel ((c :: rest).drop s.length)
      | none => [.bad]

/-- What is left of an expression, and what has been assigned. -/
structure State where
  rest : List Token
  /-- The values of parameters, as texts. -/
  value : String → Option String
  assigned : List (String × Int) := []

/-- A complaint about an expression or a value. -/
inductive Fault where
  | expression (message : String)
  | number (text : String)
  deriving DecidableEq, Repr

abbrev Eval := StateT State (Except Fault)

/-- The number that a text is as a whole; an empty one is zero. -/
def numberOf (text : String) : Except Fault Int :=
  let r := Format.readInteger true text.toList
  if r.outOfRange || (r.rest.any fun c => !isSpace c) then .error (.number text) else .ok r.value

/-- The value of a parameter. -/
def lookup (name : String) : Eval Int := do
  let s ← get
  match s.assigned.lookup name with
  | some n => return n
  | none => numberOf ((s.value name).getD "")

def assign (name : String) (n : Int) : Eval Int := do
  modify fun s => { s with assigned := (name, n) :: s.assigned }
  return n

def fail {α : Type} (message : String) : Eval α := throw (.expression message)

/-- The next token, which stays. -/
def peek : Eval (Option Token) := return (← get).rest.head?

def advance : Eval Unit := modify fun s => { s with rest := s.rest.drop 1 }

def isNext (text : String) : Eval Bool := return (← peek) = some (.symbol text)

def truth (b : Bool) : Int := if b then 1 else 0

/-- How loosely an operator of two numbers binds. -/
def looseness? (operator : String) : Option Nat :=
  [("*", 0), ("/", 0), ("%", 0), ("+", 1), ("-", 1), ("<<", 2), (">>", 2), ("<", 3), ("<=", 3), (">", 3),
    (">=", 3), ("==", 4), ("!=", 4), ("&", 5), ("^", 6), ("|", 7)].lookup operator

/-- The bits of a number with or without a sign. -/
def bits (n : Int) : Nat := (n % 0x10000000000000000).toNat

/-- The value of an operator of two numbers. -/
def operate (operator : String) (a b : Int) : Eval Int :=
  let byte := (b % 64).toNat
  match operator with
  | "*" => return wrap (a * b)
  | "/" => if b = 0 then fail "division by zero" else return wrap (a.tdiv b)
  | "%" => if b = 0 then fail "division by zero" else return wrap (a.tmod b)
  | "+" => return wrap (a + b)
  | "-" => return wrap (a - b)
  | "<<" => return wrap (a * (Nat.pow 2 byte : Nat))
  | ">>" => return a.fdiv (Nat.pow 2 byte : Nat)
  | "<" => return truth (a < b)
  | "<=" => return truth (a ≤ b)
  | ">" => return truth (b < a)
  | ">=" => return truth (b ≤ a)
  | "==" => return truth (a = b)
  | "!=" => return truth (a ≠ b)
  | "&" => return wrap (Nat.land (bits a) (bits b) : Nat)
  | "^" => return wrap (Nat.xor (bits a) (bits b) : Nat)
  | "|" => return wrap (Nat.lor (bits a) (bits b) : Nat)
  | _ => return b

/-- The operator that an assignment applies first, which may be none. -/
def assignment? (t : Token) : Option String :=
  match t with
  | .symbol text =>
    if ["=", "<<=", ">>=", "+=", "-=", "*=", "/=", "%=", "&=", "^=", "|="].contains text then
      some (String.ofList (text.toList.dropLast))
    else none
  | _ => none

mutual

/-- A number, a parameter, one of them behind signs, or an expression in brackets. With `idle` its
value does not count. -/
def primary (idle : Bool) : (fuel : Nat) → Eval Int
  | 0 => fail "expecting primary"
  | fuel + 1 => do
    match ← peek with
    | some (.number n) =>
      advance
      return n
    | some (.name name) =>
      advance
      if idle then return 0 else lookup name
    | some (.symbol "(") =>
      advance
      let n ← whole idle fuel
      unless ← isNext ")" do fail "expecting ')'"
      advance
      return n
    | some (.symbol "+") =>
      advance
      primary idle fuel
    | some (.symbol "-") =>
      advance
      return wrap (-(← primary idle fuel))
    | some (.symbol "!") =>
      advance
      return truth ((← primary idle fuel) = 0)
    | some (.symbol "~") =>
      advance
      return wrap (-1 - (← primary idle fuel))
    | _ => fail "expecting primary"

/-- A primary and operators that bind as closely as `limit` or closer, with their second operands. -/
def operators (idle : Bool) (limit : Nat) : (fuel : Nat) → (first : Int) → Eval Int
  | 0, first => return first
  | fuel + 1, first => do
    match ← peek with
    | some (.symbol operator) =>
      match looseness? operator with
      | none => return first
      | some looseness =>
        if limit < looseness then return first
        else
          advance
          let second ← primary idle fuel
          let second ← if looseness = 0 then pure second else operators idle (looseness - 1) fuel second
          let value ← if idle then pure second else operate operator first second
          operators idle limit fuel value
    | _ => return first

/-- Operands of `&&`. -/
def conjunction (idle : Bool) : (fuel : Nat) → Eval Int
  | 0 => fail "expecting primary"
  | fuel + 1 => do
    let a ← operators idle 7 fuel (← primary idle fuel)
    if ← isNext "&&" then
      advance
      let b ← conjunction (idle || a = 0) fuel
      return truth (a ≠ 0 && b ≠ 0)
    else return a

/-- Operands of `||`. -/
def disjunction (idle : Bool) : (fuel : Nat) → Eval Int
  | 0 => fail "expecting primary"
  | fuel + 1 => do
    let a ← conjunction idle fuel
    if ← isNext "||" then
      advance
      let b ← disjunction (idle || a ≠ 0) fuel
      return truth (a ≠ 0 || b ≠ 0)
    else return a

/-- One of two values by a condition. -/
def conditional (idle : Bool) : (fuel : Nat) → Eval Int
  | 0 => fail "expecting primary"
  | fuel + 1 => do
    let a ← disjunction idle fuel
    if ← isNext "?" then
      advance
      let b ← whole (idle || a = 0) fuel
      unless ← isNext ":" do fail "expecting ':'"
      advance
      let c ← conditional (idle || a ≠ 0) fuel
      return if a ≠ 0 then b else c
    else return a

/-- An expression, which may be an assignment. -/
def whole (idle : Bool) : (fuel : Nat) → Eval Int
  | 0 => fail "expecting primary"
  | fuel + 1 => do
    match (← get).rest with
    | .name name :: t :: _ =>
      match assignment? t with
      | some operator =>
        advance
        advance
        let n ← whole idle fuel
        if idle then return n
        else if operator = "" then assign name n
        else assign name (← operate operator (← lookup name) n)
      | none => conditional idle fuel
    | _ => conditional idle fuel

end

/-- The value of an expression and the assignments in it, the last one first. -/
def evaluate (value : String → Option String) (text : List Char) :
    Except Fault (Int × List (String × Int)) := do
  let ts := tokens text.length text
  let (n, s) ← (whole false (10 * (ts.length + 2))).run { rest := ts, value }
  if s.rest.isEmpty then return (n, s.assigned) else throw (.expression "expecting EOF")

end SourceJar.Tool.Shell.Arithmetic
