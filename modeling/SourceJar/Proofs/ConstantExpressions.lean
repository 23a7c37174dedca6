import Mathlib
import SourceJar.Proofs.JavaReading

/-!
How Java reads constant expressions of the integral types.

The code units of a source text are cut into tokens, each as long as it can be (`readToken?`), with white space between
them. Of the constant expressions those are read that are a literal with any number of signs and casts in front of it
(`evaluateTokens`); whatever else a text holds is turned down. The value of an expression has a type. Numbers wrap
around to the bits of their type, and the least number of a type is written as a sign and a literal that is one too
large to stand alone.

- `readTokens_integer`: the tokens of a decimal number.
- `evaluateTokens_integer`: their value.
-/

namespace SourceJar.Java

/-! ## Tokens -/

inductive Token where
  /-- A keyword or a name. -/
  | word (units : List UInt16)
  | integer (value : Nat) (long : Bool)
  | character (unit : UInt16)
  | minus
  | opening
  | closing
  deriving DecidableEq, Repr

def isDigit (unit : UInt16) : Bool := unitOf '0' ≤ unit && unit ≤ unitOf '9'

/-- Whether a code unit may stand in a word. Letters outside ASCII are left out: no keyword has one. -/
def isWordUnit (unit : UInt16) : Bool :=
  isDigit unit || (unitOf 'A' ≤ unit && unit ≤ unitOf 'Z') || (unitOf 'a' ≤ unit && unit ≤ unitOf 'z') ||
    unit == unitOf '_' || unit == unitOf '$'

/-- Whether a code unit is white space. -/
def isBlank (unit : UInt16) : Bool := [' ', '\t', '\x0C', '\n', '\r'].any fun c => unit == unitOf c

/-- The number that a row of decimal digits stands for. -/
def digitsValue (digits : List UInt16) : Nat :=
  digits.foldl (fun value digit => 10 * value + (digit.toNat - (unitOf '0').toNat)) 0

/-- A decimal literal, with a letter L after it if it is of the type long. One that starts with a zero is nothing but
this zero: longer ones are octal. -/
def readInteger? (units : List UInt16) : Option (Token × List UInt16) :=
  let digits := units.takeWhile isDigit
  if digits.head? = some (unitOf '0') ∧ digits.length ≠ 1 then none
  else
    match units.dropWhile isDigit with
    | [] => some (.integer (digitsValue digits) false, [])
    | unit :: rest =>
      if unit = unitOf 'L' ∨ unit = unitOf 'l' then some (.integer (digitsValue digits) true, rest)
      else some (.integer (digitsValue digits) false, unit :: rest)

/-- What stands for one code unit after the first quote of a character literal. -/
def readUnit? : List UInt16 → Option (UInt16 × List UInt16)
  | [] => none
  | unit :: rest =>
    if unit = unitOf '\'' ∨ unit = unitOf '\n' ∨ unit = unitOf '\r' then none
    else if unit = unitOf '\\' then escapeSequence? rest
    else some (unit, rest)

/-- The rest of a character literal after its first quote: what stands for one code unit, and a quote. -/
def readCharacter? (units : List UInt16) : Option (Token × List UInt16) :=
  match readUnit? units with
  | some (value, unit :: rest) => if unit = unitOf '\'' then some (.character value, rest) else none
  | _ => none

/-- Whether a minus sign with these code units after it is the start of a longer token. -/
def goesOn : List UInt16 → Bool
  | [] => false
  | next :: _ => ['-', '=', '>'].any fun c => next == unitOf c

/-- The first token of a row of code units, and what follows it. -/
def readToken? : List UInt16 → Option (Token × List UInt16)
  | [] => none
  | unit :: rest =>
    if isDigit unit then readInteger? (unit :: rest)
    else if isWordUnit unit then
      some (.word ((unit :: rest).takeWhile isWordUnit), (unit :: rest).dropWhile isWordUnit)
    else if unit = unitOf '\'' then readCharacter? rest
    else if unit = unitOf '(' then some (.opening, rest)
    else if unit = unitOf ')' then some (.closing, rest)
    else if unit = unitOf '-' ∧ goesOn rest = false then some (.minus, rest)
    else none

theorem length_readInteger? {units rest : List UInt16} {token : Token} {unit : UInt16}
    (hunit : isDigit unit = true) (h : readInteger? (unit :: units) = some (token, rest)) :
    rest.length < (unit :: units).length := by
  have hdrop : ((unit :: units).dropWhile isDigit).length < (unit :: units).length := by
    rw [List.dropWhile_cons_of_pos hunit]
    exact Nat.lt_succ_of_le (List.dropWhile_suffix _).length_le
  simp only [readInteger?] at h
  split at h
  · cases h
  · split at h
    · cases h
      exact Nat.succ_pos _
    · rename_i next after e
      rw [e, List.length_cons] at hdrop
      split at h <;> cases h
      · omega
      · exact hdrop

theorem length_readCharacter? {units rest : List UInt16} {token : Token}
    (h : readCharacter? units = some (token, rest)) : rest.length < units.length := by
  unfold readCharacter? at h
  split at h
  · rename_i value unit after e
    split at h
    · cases h
      unfold readUnit? at e
      split at e
      · cases e
      · split at e
        · cases e
        · split at e
          · have hlength := length_escapeSequence? e
            simp only [List.length_cons] at hlength ⊢
            omega
          · cases e
            simp only [List.length_cons]
            omega
    · cases h
  · cases h

theorem length_readToken? {units rest : List UInt16} {token : Token} (h : readToken? units = some (token, rest)) :
    rest.length < units.length := by
  cases units with
  | nil => cases h
  | cons unit after =>
    have hafter : after.length < (unit :: after).length := Nat.lt_succ_self _
    rw [readToken?] at h
    split at h
    · exact length_readInteger? ‹_› h
    split at h
    · rename_i hword
      cases h
      rw [List.dropWhile_cons_of_pos hword]
      exact Nat.lt_succ_of_le (List.dropWhile_suffix _).length_le
    split at h
    · exact Nat.lt_trans (length_readCharacter? h) hafter
    split at h
    · cases h
      exact hafter
    split at h
    · cases h
      exact hafter
    split at h
    · cases h
      exact hafter
    · cases h

/-- The tokens of a row of code units. -/
def readTokens : List UInt16 → Option (List Token)
  | [] => some []
  | unit :: rest =>
    if isBlank unit then readTokens rest
    else
      match _h : readToken? (unit :: rest) with
      | some (token, after) => (readTokens after).map (token :: ·)
      | none => none
termination_by units => units.length
decreasing_by
  · simp
  · exact length_readToken? _h

/-! ## Values -/

inductive Primitive where
  | boolean | byte | short | char | int | long
  deriving DecidableEq, Repr

def Primitive.keyword : Primitive → String
  | .boolean => "boolean"
  | .byte => "byte"
  | .short => "short"
  | .char => "char"
  | .int => "int"
  | .long => "long"

/-- The type that a word is the keyword of. -/
def primitive? (word : List UInt16) : Option Primitive :=
  [Primitive.boolean, .byte, .short, .char, .int, .long].find? fun type => codeUnits type.keyword.toList == word

/-- A value of a primitive type. -/
inductive Value where
  | boolean (value : Bool)
  | byte (value : Int8)
  | short (value : Int16)
  | char (value : UInt16)
  | int (value : Int32)
  | long (value : Int64)
  deriving DecidableEq

/-- The number that a value is, unless it is a truth value. -/
def Value.number? : Value → Option Int
  | .boolean _ => none
  | .byte value => some value.toInt
  | .short value => some value.toInt
  | .char value => some value.toNat
  | .int value => some value.toInt
  | .long value => some value.toInt

/-- The value of a numeric type with the lowest bits of a number. -/
def Primitive.wrap? : Primitive → Int → Option Value
  | .boolean, _ => none
  | .byte, n => some (.byte (Int8.ofInt n))
  | .short, n => some (.short (Int16.ofInt n))
  | .char, n => some (.char (UInt16.ofInt n))
  | .int, n => some (.int (Int32.ofInt n))
  | .long, n => some (.long (Int64.ofInt n))

/-- A value cast to a type. Truth values and numbers are not cast to each other. -/
def Value.cast? (type : Primitive) (value : Value) : Option Value :=
  match value.number? with
  | some n => type.wrap? n
  | none => if type = .boolean then some value else none

/-- A value with a sign in front: everything but `long` is taken for an `int` first. -/
def Value.negate? : Value → Option Value
  | .boolean _ => none
  | .long value => some (.long (-value))
  | value => value.number?.map fun n => .int (Int32.ofInt (-n))

/-! ## Expressions -/

/-- How many numbers from zero on the type of an integer literal has. -/
def integerBound (long : Bool) : Nat := if long then 2 ^ 63 else 2 ^ 31

def integerValue (long : Bool) (n : Int) : Value := if long then .long (Int64.ofInt n) else .int (Int32.ofInt n)

/-- The value of an expression: a literal, or a sign or a cast in front of an expression. -/
def evaluateTokens : List Token → Option Value
  | [.integer n long] => if n < integerBound long then some (integerValue long n) else none
  | [.character unit] => some (.char unit)
  | [.word units] =>
    if units = codeUnits "true".toList then some (.boolean true)
    else if units = codeUnits "false".toList then some (.boolean false)
    else none
  | [.minus, .integer n long] => if n ≤ integerBound long then some (integerValue long (-n)) else none
  | .minus :: rest => (evaluateTokens rest).bind Value.negate?
  | .opening :: .word units :: .closing :: rest => do
    let type ← primitive? units
    let value ← evaluateTokens rest
    value.cast? type
  | _ => none

/-- The value of a source text that is one constant expression. -/
def evaluate (text : String) : Option Value := do
  let units ← readEscapes true text.toList
  let tokens ← readTokens units
  evaluateTokens tokens

/-! ## Texts without escapes -/

theorem codeUnits_append (text text' : List Char) : codeUnits (text ++ text') = codeUnits text ++ codeUnits text' :=
  List.flatMap_append

theorem readEscapes_plain {text : List Char} (h : '\\' ∉ text) : readEscapes true text = some (codeUnits text) := by
  induction text with
  | nil => rw [readEscapes]; rfl
  | cons c rest ih =>
    rw [List.mem_cons, not_or] at h
    rw [readEscapes_other true rest (Ne.symm h.1), ih h.2]
    rfl

theorem evaluate_plain {text : String} (h : '\\' ∉ text.toList) :
    evaluate text = (readTokens (codeUnits text.toList)).bind evaluateTokens := by
  rw [evaluate, readEscapes_plain h]
  rfl

/-! ## Decimal numbers -/

theorem toNat_of_isDigit {d : Char} (h : d.isDigit = true) : '0'.toNat ≤ d.toNat ∧ d.toNat ≤ '9'.toNat := by
  simpa [Char.isDigit, UInt32.le_iff_toNat_le] using h

theorem toNat_unitOf_digit {d : Char} (h : d.isDigit = true) : (unitOf d).toNat = d.toNat := by
  have hd := (toNat_of_isDigit h).2
  exact toNat_unit (Nat.lt_of_le_of_lt hd (by decide))

theorem isDigit_unitOf {d : Char} (h : d.isDigit = true) : isDigit (unitOf d) = true := by
  have hd := toNat_of_isDigit h
  rw [isDigit, Bool.and_eq_true, decide_eq_true_iff, decide_eq_true_iff, UInt16.le_iff_toNat_le,
    UInt16.le_iff_toNat_le, toNat_unitOf_digit h]
  exact hd

theorem isDigit_of_mem_digits {n : Nat} : ∀ unit ∈ (Nat.toDigits 10 n).map unitOf, isDigit unit = true := by
  intro unit hm
  obtain ⟨d, hd, rfl⟩ := List.mem_map.mp hm
  exact isDigit_unitOf (Nat.isDigit_of_mem_toDigits (by decide) (by decide) hd)

theorem digitsValue_toDigits (n : Nat) : digitsValue ((Nat.toDigits 10 n).map unitOf) = n := by
  rw [digitsValue, List.foldl_map]
  refine Eq.trans ?_ (Nat.ofDigitChars_toDigits (b := 10) (n := n) (by decide) (by decide))
  rw [Nat.ofDigitChars_eq_foldl]
  refine List.foldl_ext _ _ 0 fun value d hd => ?_
  rw [toNat_unitOf_digit (Nat.isDigit_of_mem_toDigits (by decide) (by decide) hd)]
  rfl

/-- Only the digits of zero start with a zero. -/
theorem head?_toDigits {n : Nat} (h : 0 < n) : (Nat.toDigits 10 n).head? ≠ some '0' := by
  induction n using Nat.strongRecOn with
  | ind n ih =>
    rw [Nat.toDigits_eq_if (by decide)]
    split
    · rename_i hlt
      have hdigit : ∀ n < 10, 0 < n → some (Nat.digitChar n) ≠ some '0' := by decide
      exact hdigit n hlt h
    · rw [List.head?_append_of_ne_nil _ Nat.toDigits_ne_nil]
      exact ih (n / 10) (by omega) (by omega)

/-- The mark of a literal of the type long. -/
def longMark (long : Bool) : List Char := if long then ['L'] else []

theorem readInteger?_toDigits (n : Nat) (long : Bool) :
    readInteger? ((Nat.toDigits 10 n ++ longMark long).map unitOf) = some (.integer n long, []) := by
  have hdigits : ∀ unit ∈ (Nat.toDigits 10 n).map unitOf, isDigit unit = true := isDigit_of_mem_digits
  have htake :
      ((Nat.toDigits 10 n ++ longMark long).map unitOf).takeWhile isDigit = (Nat.toDigits 10 n).map unitOf := by
    have hmark : ((longMark long).map unitOf).takeWhile isDigit = [] := by cases long <;> rfl
    rw [List.map_append, List.takeWhile_append_of_pos hdigits, hmark, List.append_nil]
  have hdrop : ((Nat.toDigits 10 n ++ longMark long).map unitOf).dropWhile isDigit = (longMark long).map unitOf := by
    rw [List.map_append, List.dropWhile_append_of_pos hdigits]
    cases long <;> rfl
  have hzero : ¬(((Nat.toDigits 10 n).map unitOf).head? = some (unitOf '0') ∧
      ((Nat.toDigits 10 n).map unitOf).length ≠ 1) := by
    rintro ⟨hhead, hlength⟩
    rcases Nat.eq_zero_or_pos n with rfl | hn
    · exact hlength rfl
    · rw [List.head?_map, Option.map_eq_some_iff] at hhead
      obtain ⟨d, hd, e⟩ := hhead
      have hdigit := Nat.isDigit_of_mem_toDigits (by decide) (by decide) (List.mem_of_mem_head? hd)
      have htoNat := congrArg UInt16.toNat e
      rw [toNat_unitOf_digit hdigit] at htoNat
      have hd0 : d = '0' := Char.toNat_inj.mp htoNat
      exact head?_toDigits hn (hd0 ▸ hd)
  simp only [readInteger?]
  rw [htake, hdrop, if_neg hzero, digitsValue_toDigits]
  cases long <;> rfl

theorem any_eq_false_of_isDigit {unit : UInt16} {signs : List Char} (h : isDigit unit = true)
    (hsigns : (signs.all fun c => !isDigit (unitOf c)) = true) : (signs.any fun c => unit == unitOf c) = false := by
  rw [List.any_eq_false]
  intro c hc e
  have hsign := List.all_eq_true.mp hsigns c hc
  rw [← beq_iff_eq.mp e, h] at hsign
  cases hsign

theorem isBlank_of_isDigit {unit : UInt16} (h : isDigit unit = true) : isBlank unit = false :=
  any_eq_false_of_isDigit h rfl

theorem readTokens_cons {unit : UInt16} {rest after : List UInt16} {token : Token} (hblank : isBlank unit = false)
    (h : readToken? (unit :: rest) = some (token, after)) :
    readTokens (unit :: rest) = (readTokens after).map (token :: ·) := by
  rw [readTokens, hblank, if_neg Bool.false_ne_true]
  split <;> rename_i hr <;> rw [h] at hr <;> cases hr
  rfl

theorem readTokens_eq_none {unit : UInt16} {rest : List UInt16} (hblank : isBlank unit = false)
    (h : readToken? (unit :: rest) = none) : readTokens (unit :: rest) = none := by
  rw [readTokens, hblank, if_neg Bool.false_ne_true]
  split <;> rename_i hr
  · rw [h] at hr
    cases hr
  · rfl

theorem readTokens_nil : readTokens [] = some [] := by rw [readTokens]

/-- The tokens of a decimal number. -/
def integerTokens (long : Bool) : Int → List Token
  | .ofNat n => [.integer n long]
  | .negSucc n => [.minus, .integer (n + 1) long]

theorem readTokens_digits (n : Nat) (long : Bool) :
    readTokens ((Nat.toDigits 10 n ++ longMark long).map unitOf) = some [.integer n long] := by
  obtain ⟨d, rest, hd⟩ := List.exists_cons_of_ne_nil (Nat.toDigits_ne_nil (n := n) (b := 10))
  have hdigit : isDigit (unitOf d) = true := isDigit_of_mem_digits (n := n) _ (by simp [hd])
  have hread := readInteger?_toDigits n long
  rw [hd] at hread ⊢
  rw [List.cons_append, List.map_cons] at hread ⊢
  have htoken : readToken? (unitOf d :: (rest ++ longMark long).map unitOf) = some (.integer n long, []) := by
    rw [readToken?, if_pos hdigit, hread]
  rw [readTokens_cons (isBlank_of_isDigit hdigit) htoken, readTokens_nil]
  rfl

theorem readTokens_integer (n : Int) (long : Bool) :
    readTokens ((Decimal.integerText n ++ longMark long).map unitOf) = some (integerTokens long n) := by
  cases n with
  | ofNat n => exact readTokens_digits n long
  | negSucc n =>
    have hends : goesOn ((Nat.toDigits 10 (n + 1) ++ longMark long).map unitOf) = false := by
      rcases hdigits : Nat.toDigits 10 (n + 1) with _ | ⟨d, rest⟩
      · exact absurd hdigits Nat.toDigits_ne_nil
      · have hdigit : isDigit (unitOf d) = true :=
          isDigit_of_mem_digits _ (List.mem_map_of_mem (hdigits ▸ List.mem_cons_self))
        exact any_eq_false_of_isDigit hdigit rfl
    have hminus : readToken? (unitOf '-' :: (Nat.toDigits 10 (n + 1) ++ longMark long).map unitOf) =
        some (.minus, (Nat.toDigits 10 (n + 1) ++ longMark long).map unitOf) := by
      rw [readToken?, if_neg (by decide), if_neg (by decide), if_neg (by decide), if_neg (by decide),
        if_neg (by decide), if_pos ⟨rfl, hends⟩]
    rw [Decimal.integerText, List.cons_append, List.map_cons, readTokens_cons (by decide) hminus, readTokens_digits]
    rfl

/-- A decimal number has its value, the least one of its type included. -/
theorem evaluateTokens_integer (long : Bool) {n : Int} (h : -(integerBound long : Int) ≤ n)
    (h' : n < integerBound long) : evaluateTokens (integerTokens long n) = some (integerValue long n) := by
  cases n with
  | ofNat n => exact if_pos (Int.ofNat_lt.mp h')
  | negSucc n =>
    have hn : n + 1 ≤ integerBound long := by omega
    exact if_pos hn

end SourceJar.Java
