import SourceJar.Tool.Options

/-!
`base64`: three bytes as four digits of base 64, in lines of a width, and back.
-/

namespace SourceJar.Tool.Base64

/-- The digits of base 64. -/
def digit (n : Nat) : UInt8 :=
  if n < 26 then UInt8.ofNat (0x41 + n)
  else if n < 52 then UInt8.ofNat (0x61 + n - 26)
  else if n < 62 then UInt8.ofNat (0x30 + n - 52)
  else if n = 62 then 0x2B
  else 0x2F

/-- The value of a digit. -/
def digit? (b : UInt8) : Option Nat :=
  let n := b.toNat
  if 0x41 ≤ n && n ≤ 0x5A then some (n - 0x41)
  else if 0x61 ≤ n && n ≤ 0x7A then some (n - 0x61 + 26)
  else if 0x30 ≤ n && n ≤ 0x39 then some (n - 0x30 + 52)
  else if n = 0x2B then some 62
  else if n = 0x2F then some 63
  else none

/-- The mark in place of a digit at the end. -/
def padding : UInt8 := 0x3D

/-- Bytes in base 64, with marks at the end where bytes are missing. -/
def encode : Bytes → Bytes
  | [] => []
  | [a] => [digit (a.toNat / 4), digit (a.toNat % 4 * 16), padding, padding]
  | [a, b] =>
    [digit (a.toNat / 4), digit (a.toNat % 4 * 16 + b.toNat / 16), digit (b.toNat % 16 * 4), padding]
  | a :: b :: c :: rest =>
    digit (a.toNat / 4) :: digit (a.toNat % 4 * 16 + b.toNat / 16) ::
      digit (b.toNat % 16 * 4 + c.toNat / 64) :: digit (c.toNat % 64) :: encode rest

/-- The bytes of up to four digits, and whether they are a whole group. -/
def decodeGroup (group : Bytes) : Bytes × Bool :=
  match group with
  | a :: b :: rest =>
    match digit? a, digit? b with
    | some x, some y =>
      let first := UInt8.ofNat (x * 4 + y / 16)
      match rest with
      | [] => ([first], false)
      | c :: rest =>
        if c = padding then ([first], rest = [padding])
        else
          match digit? c with
          | none => ([first], false)
          | some z =>
            let second := UInt8.ofNat (y % 16 * 16 + z / 4)
            match rest with
            | [] => ([first, second], false)
            | d :: _ =>
              if d = padding then ([first, second], true)
              else
                match digit? d with
                | none => ([first, second], false)
                | some w => ([first, second, UInt8.ofNat (z % 4 * 64 + w)], true)
    | _, _ => ([], false)
  | _ => ([], false)

/-- The bytes of digits up to the first group that is not whole, and whether there is none. -/
def decode : (fuel : Nat) → Bytes → Bytes × Bool
  | 0, _ => ([], true)
  | _, [] => ([], true)
  | fuel + 1, digits =>
    let (bytes, whole) := decodeGroup (digits.take 4)
    if whole then
      let (more, all) := decode fuel (digits.drop 4)
      (bytes ++ more, all)
    else (bytes, false)

/-- A row cut into lines of a width; `room` is left in the line. -/
def wrapLines (width : Nat) : (room : Nat) → Bytes → Bytes
  | _, [] => [0x0A]
  | 0, b :: rest => 0x0A :: b :: wrapLines width (width - 1) rest
  | room + 1, b :: rest => b :: wrapLines width room rest

/-- What is asked for. -/
structure Request where
  decodes : Bool := false
  ignoresGarbage : Bool := false
  width : Nat := 76

def options : Options where
  letters := [('d', .none), ('i', .none), ('w', .required)]
  names := [("decode", "d", .none), ("wrap", "w", .required), ("ignore-garbage", "i", .none)] ++
    Options.common

/-- Takes in one option. A width beyond all numbers is no width. -/
def step (c : Context) (r : Request) (key : String) (value : Option String) :
    Except Outcome Request :=
  if key = "d" then .ok { r with decodes := true }
  else if key = "i" then .ok { r with ignoresGarbage := true }
  else
    let text := value.getD ""
    let (negative, unsigned) := match text.toList with
      | '+' :: rest => (false, String.ofList rest)
      | '-' :: rest => (true, String.ofList rest)
      | _ => (false, text)
    match if negative then (number? unsigned).filter (· = 0) else number? unsigned with
    | some n => .ok { r with width := if n < 0x8000000000000000 then n else 0 }
    | none => .error (c.complaint s!"invalid wrap size: {quotedValue text}")

/-- Writes a content in base 64, or what is written in it. -/
def convert (c : Context) (r : Request) (content : Bytes) : Outcome :=
  if r.decodes then
    let digits := content.filter fun b =>
      b ≠ 0x0A && (!r.ignoresGarbage || (digit? b).isSome || b = padding)
    let (bytes, whole) := decode digits.length digits
    if whole then success bytes else both (success bytes) (c.complaint "invalid input")
  else if content.isEmpty then {}
  else
    let digits := encode content
    success (if r.width = 0 then digits else wrapLines r.width r.width digits)

/-- Writes a file in base 64, or what is written in it. -/
def run : Tool := fun arguments c =>
  let (items, operands) := options.scan arguments
  match applyOptions c (step c) {} items with
  | .error r => (r, c)
  | .ok r =>
    match operands with
    | _ :: extra :: _ => (c.misuse s!"extra operand {quotedValue extra}", c)
    | operands =>
      let name := operands.headD "-"
      match c.read name with
      | (.ok content, after) => (convert c r content, after)
      | (.error e, after) =>
        let doing := if name = "-" || e = .os .isDirectory then "read error" else shownName name
        (c.complaint s!"{doing}: {faultText e}", after)

end SourceJar.Tool.Base64
