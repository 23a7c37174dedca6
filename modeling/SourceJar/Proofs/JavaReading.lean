import SourceJar.Java.Literal

/-!
How Java reads source text.

A text is read twice. First its Unicode escapes are read (`readEscapes`): a backslash after an even number of
backslashes in a row, one or more letters u and four hexadecimal digits stand for a code unit, and every other
character stands for itself. Then literals are read off the code units (`readLiteral`): a string literal goes from a
quote to the next one that no backslash escapes, and must not be broken by the end of a line. Values are rows of UTF-16
code units, as Java has them; a row of code units comes from one text at most (`codeUnits_inj`).
-/

namespace SourceJar.Java

/-! ## Code units -/

/-- The UTF-16 code units of a character: itself, or a surrogate pair. -/
def charUnits (c : Char) : List UInt16 :=
  if c.toNat < 0x10000 then [UInt16.ofNat c.toNat]
  else [UInt16.ofNat (0xD800 + (c.toNat - 0x10000) / 0x400), UInt16.ofNat (0xDC00 + (c.toNat - 0x10000) % 0x400)]

/-- The UTF-16 code units of a text. -/
def codeUnits (text : List Char) : List UInt16 := text.flatMap charUnits

/-- The code unit of a character that has just one. -/
def unitOf (c : Char) : UInt16 := UInt16.ofNat c.toNat

theorem toNat_unit {n : Nat} (h : n < 0x10000) : (UInt16.ofNat n).toNat = n := by
  rw [UInt16.toNat_ofNat', Nat.mod_eq_of_lt h]

theorem charUnits_of_lt {c : Char} (h : c.toNat < 0x10000) : charUnits c = [unitOf c] := if_pos h

/-- The code units in front of a row are those of one character at most. -/
theorem charUnits_append_inj {c d : Char} {a b : List UInt16} (h : charUnits c ++ a = charUnits d ++ b) :
    c = d ∧ a = b := by
  -- surrogates are not characters, so a character is never the first half of a pair
  have hc : c.toNat < 0xD800 ∨ 0xDFFF < c.toNat ∧ c.toNat < 0x110000 := c.valid
  have hd : d.toNat < 0xD800 ∨ 0xDFFF < d.toNat ∧ d.toNat < 0x110000 := d.valid
  have htoNat : ∀ {n m : Nat}, n < 0x10000 → m < 0x10000 → UInt16.ofNat n = UInt16.ofNat m → n = m :=
    fun hn hm e => by rw [← toNat_unit hn, ← toNat_unit hm, e]
  rw [← Char.toNat_inj]
  unfold charUnits at h
  generalize c.toNat = n at hc h ⊢
  generalize d.toNat = m at hd h ⊢
  split at h <;> split at h
  · obtain ⟨e, rfl⟩ := List.cons.inj h
    exact ⟨htoNat (by omega) (by omega) e, rfl⟩
  · have := htoNat (by omega) (by omega) (List.cons.inj h).1
    omega
  · have := htoNat (by omega) (by omega) (List.cons.inj h).1
    omega
  · obtain ⟨e, h⟩ := List.cons.inj h
    obtain ⟨e', rfl⟩ := List.cons.inj h
    have := htoNat (by omega) (by omega) e
    have := htoNat (by omega) (by omega) e'
    exact ⟨by omega, rfl⟩

/-- Surrogates are no signs of their own: of a character that is none of some signs no code unit is one. -/
theorem charUnits_notMem {c : Char} {signs : List Char} (hsigns : ∀ d ∈ signs, d.toNat < 0xD800) (hc : c ∉ signs) :
    ∀ unit ∈ charUnits c, unit ∉ signs.map unitOf := by
  have hother : ∀ n < 0x10000, (∀ d ∈ signs, n ≠ d.toNat) → UInt16.ofNat n ∉ signs.map unitOf := by
    intro n hn hd hm
    obtain ⟨d, hd', e⟩ := List.mem_map.mp hm
    have hlt : d.toNat < 0x10000 := Nat.lt_trans (hsigns d hd') (by decide)
    refine hd d hd' ?_
    rw [← toNat_unit hn, ← toNat_unit hlt]
    exact congrArg UInt16.toNat e.symm
  intro unit hu
  by_cases hlt : c.toNat < 0x10000
  · rw [charUnits_of_lt hlt] at hu
    rw [List.mem_singleton.mp hu]
    exact hother c.toNat hlt fun d hd e => hc (Char.toNat_inj.mp e ▸ hd)
  · have hvalid : c.toNat < 0xD800 ∨ 0xDFFF < c.toNat ∧ c.toNat < 0x110000 := c.valid
    rw [charUnits, if_neg hlt, List.mem_cons, List.mem_singleton] at hu
    rcases hu with rfl | rfl
    · refine hother _ (by omega) fun d hd => ?_
      have := hsigns d hd
      omega
    · refine hother _ (by omega) fun d hd => ?_
      have := hsigns d hd
      omega

/-- A row of code units comes from one text at most. -/
theorem codeUnits_inj {text text' : List Char} (h : codeUnits text = codeUnits text') : text = text' := by
  have hne : ∀ (c : Char) (rest : List Char), codeUnits (c :: rest) ≠ codeUnits [] := by
    intro c rest e
    rw [codeUnits, List.flatMap_cons, charUnits] at e
    split at e <;> cases e
  induction text generalizing text' with
  | nil =>
    cases text' with
    | nil => rfl
    | cons c rest => exact absurd h.symm (hne c rest)
  | cons c rest ih =>
    cases text' with
    | nil => exact absurd h (hne c rest)
    | cons d rest' =>
      obtain ⟨rfl, e⟩ := charUnits_append_inj h
      rw [ih e]

/-! ## Unicode escapes -/

/-- The value of a hexadecimal digit of either case. -/
def hexDigit? (c : Char) : Option Nat :=
  let n := c.toNat
  if 0x30 ≤ n ∧ n ≤ 0x39 then some (n - 0x30)
  else if 0x41 ≤ n ∧ n ≤ 0x46 then some (n - 0x41 + 10)
  else if 0x61 ≤ n ∧ n ≤ 0x66 then some (n - 0x61 + 10)
  else none

/-- A Unicode escape from its first letter u on: the code unit that it stands for, and what follows it. -/
def unicodeEscape? (text : List Char) : Option (UInt16 × List Char) :=
  match text.dropWhile (· == 'u') with
  | a :: b :: c :: d :: rest => do
    let a ← hexDigit? a
    let b ← hexDigit? b
    let c ← hexDigit? c
    let d ← hexDigit? d
    return (UInt16.ofNat (((a * 16 + b) * 16 + c) * 16 + d), rest)
  | _ => none

theorem length_unicodeEscape? {text rest : List Char} {unit : UInt16} (h : unicodeEscape? text = some (unit, rest)) :
    rest.length < text.length := by
  have hd := (List.dropWhile_suffix (l := text) (· == 'u')).length_le
  unfold unicodeEscape? at h
  split at h
  · rename_i a b c d rest' e
    simp only [Option.bind_eq_bind, Option.bind_eq_some_iff, Option.pure_def, Option.some.injEq, Prod.mk.injEq] at h
    obtain ⟨-, -, -, -, -, -, -, -, -, rfl⟩ := h
    rw [e] at hd
    simp only [List.length_cons] at hd
    omega
  · cases h

/-- The code units of a text when its Unicode escapes are read; none if one of them is malformed. `even` tells whether
the text comes after an even number of backslashes in a row. -/
def readEscapes (even : Bool) : List Char → Option (List UInt16)
  | [] => some []
  | c :: rest =>
    if c = '\\' then
      if even = true ∧ rest.head? = some 'u' then
        match _h : unicodeEscape? rest with
        | some (unit, after) => (readEscapes true after).map (unit :: ·)
        | none => none
      else (readEscapes (!even) rest).map (charUnits c ++ ·)
    else (readEscapes true rest).map (charUnits c ++ ·)
termination_by text => text.length
decreasing_by
  · have := length_unicodeEscape? _h
    simp only [List.length_cons]
    omega
  · simp
  · simp

section Characters

variable {c : Char} (even : Bool) (rest : List Char)

theorem readEscapes_other (h : c ≠ '\\') :
    readEscapes even (c :: rest) = (readEscapes true rest).map (charUnits c ++ ·) := by
  rw [readEscapes, if_neg h]

/-- A backslash that starts no Unicode escape stands for itself. -/
theorem readEscapes_backslash (h : even = true → rest.head? ≠ some 'u') :
    readEscapes even ('\\' :: rest) = (readEscapes (!even) rest).map (unitOf '\\' :: ·) := by
  rw [readEscapes, if_pos rfl, if_neg fun hu => h hu.1 hu.2]
  rfl

theorem hexDigit?_digitChar {n : Nat} (h : n < 16) : hexDigit? (Nat.digitChar n) = some n ∧ Nat.digitChar n ≠ 'u' := by
  have : ∀ n < 16, hexDigit? (Nat.digitChar n) = some n ∧ Nat.digitChar n ≠ 'u' := by decide
  exact this n h

/-- A Unicode escape with four digits stands for their value. -/
theorem readEscapes_hex4 {n : Nat} (h : n < 0x10000) :
    readEscapes true ('\\' :: 'u' :: (hex4 n ++ rest)) = (readEscapes true rest).map (UInt16.ofNat n :: ·) := by
  have hdigit : ∀ m, hexDigit? (Nat.digitChar (m % 16)) = some (m % 16) ∧ Nat.digitChar (m % 16) ≠ 'u' :=
    fun m => hexDigit?_digitChar (Nat.mod_lt m (by omega))
  have hvalue : ((n / 4096 % 16 * 16 + n / 256 % 16) * 16 + n / 16 % 16) * 16 + n % 16 = n := by omega
  have hread : unicodeEscape? ('u' :: (hex4 n ++ rest)) = some (UInt16.ofNat n, rest) := by
    have hdrop : ('u' :: (hex4 n ++ rest)).dropWhile (· == 'u') = hex4 n ++ rest := by
      simp [hex4, (hdigit _).2]
    rw [unicodeEscape?, hdrop]
    simp only [hex4, List.cons_append, List.nil_append, hdigit, Option.bind_eq_bind, Option.bind_some, hvalue]
    rfl
  rw [readEscapes, if_pos rfl, if_pos ⟨rfl, rfl⟩]
  split <;> rename_i hr <;> rw [hread] at hr <;> cases hr
  rfl

end Characters

/-! ## Literals -/

def isOctalDigit (unit : UInt16) : Bool := unitOf '0' ≤ unit && unit ≤ unitOf '7'

/-- The digits of an octal escape: as many as stand there, but at most three, and at most two if the first is
above 3. -/
def octalDigits (units : List UInt16) : List UInt16 :=
  (units.take (if units.head?.any (· ≤ unitOf '3') then 3 else 2)).takeWhile isOctalDigit

/-- An octal escape after its backslash: the code unit that it stands for, and what follows it. -/
def octalEscape? (units : List UInt16) : Option (UInt16 × List UInt16) :=
  let digits := octalDigits units
  if digits.isEmpty then none
  else some (digits.foldl (fun value digit => value * 8 + (digit - unitOf '0')) 0, units.drop digits.length)

/-- What an escape sequence of one letter or sign stands for. -/
def letterEscape? (unit : UInt16) : Option UInt16 :=
  if unit = unitOf 'b' then some 0x08
  else if unit = unitOf 't' then some 0x09
  else if unit = unitOf 'n' then some 0x0A
  else if unit = unitOf 'f' then some 0x0C
  else if unit = unitOf 'r' then some 0x0D
  else if unit = unitOf 's' then some 0x20
  else if unit = unitOf '"' ∨ unit = unitOf '\'' ∨ unit = unitOf '\\' then some unit
  else none

/-- An escape sequence after its backslash: the code unit that it stands for, and what follows it. -/
def escapeSequence? : List UInt16 → Option (UInt16 × List UInt16)
  | [] => none
  | unit :: rest =>
    match letterEscape? unit with
    | some value => some (value, rest)
    | none => octalEscape? (unit :: rest)

theorem length_octalEscape? {units rest : List UInt16} {unit : UInt16} (h : octalEscape? units = some (unit, rest)) :
    rest.length < units.length := by
  simp only [octalEscape?] at h
  split at h
  · cases h
  · rename_i hd
    obtain ⟨-, rfl⟩ := Prod.mk.inj (Option.some.inj h)
    have hne : units ≠ [] := by
      rintro rfl
      exact hd rfl
    have hdigits := List.length_pos_iff.mpr fun e => hd (List.isEmpty_iff.mpr e)
    have hunits := List.length_pos_iff.mpr hne
    rw [List.length_drop]
    omega

theorem length_escapeSequence? {units rest : List UInt16} {unit : UInt16}
    (h : escapeSequence? units = some (unit, rest)) : rest.length < units.length := by
  cases units with
  | nil => cases h
  | cons first after =>
    rw [escapeSequence?] at h
    split at h
    · obtain ⟨-, rfl⟩ := Prod.mk.inj (Option.some.inj h)
      exact Nat.lt_succ_self _
    · exact length_octalEscape? h

/-- A value and what follows it, with code units in front of the value. -/
def prependUnits (units : List UInt16) (read : List UInt16 × List UInt16) : List UInt16 × List UInt16 :=
  (units ++ read.1, read.2)

theorem prependUnits_nil : prependUnits [] = id := rfl

theorem prependUnits_comp (first second : List UInt16) :
    prependUnits first ∘ prependUnits second = prependUnits (first ++ second) := by
  funext read
  simp only [Function.comp_apply, prependUnits, List.append_assoc]

/-- The rest of a string literal after its first quote: its value, and what follows its last quote. A line must not end
in it. -/
def readString : List UInt16 → Option (List UInt16 × List UInt16)
  | [] => none
  | unit :: rest =>
    if unit = unitOf '"' then some ([], rest)
    else if unit = unitOf '\n' ∨ unit = unitOf '\r' then none
    else if unit = unitOf '\\' then
      match _h : escapeSequence? rest with
      | some (value, after) => (readString after).map (prependUnits [value])
      | none => none
    else (readString rest).map (prependUnits [unit])
termination_by units => units.length
decreasing_by
  · have := length_escapeSequence? _h
    simp only [List.length_cons]
    omega
  · simp

/-- A code unit that is no quote, no backslash and no end of a line stands for itself. -/
theorem readString_other {unit : UInt16} (h : unit ∉ ['"', '\n', '\r', '\\'].map unitOf) (rest : List UInt16) :
    readString (unit :: rest) = (readString rest).map (prependUnits [unit]) := by
  simp only [List.map_cons, List.map_nil, List.mem_cons, List.not_mem_nil, or_false, not_or] at h
  obtain ⟨hq, hn, hr, hb⟩ := h
  rw [readString, if_neg hq, if_neg (not_or.mpr ⟨hn, hr⟩), if_neg hb]

theorem readString_escape {unit value : UInt16} (h : letterEscape? unit = some value) (rest : List UInt16) :
    readString (unitOf '\\' :: unit :: rest) = (readString rest).map (prependUnits [value]) := by
  have hread : escapeSequence? (unit :: rest) = some (value, rest) := by rw [escapeSequence?, h]
  rw [readString, if_neg (by decide), if_neg (by decide), if_pos rfl]
  split <;> rename_i hr <;> rw [hread] at hr <;> cases hr
  rfl

/-- One string literal: its value, and what follows it. Three quotes open no literal but a block of text. -/
def readLiteral : List UInt16 → Option (List UInt16 × List UInt16)
  | [] => none
  | unit :: rest =>
    if unit = unitOf '"' ∧ rest.take 2 ≠ [unitOf '"', unitOf '"'] then readString rest else none

/-- The value of a source text that is one string literal and nothing else. -/
def stringValue? (text : String) : Option (List UInt16) :=
  match (readEscapes true text.toList).bind readLiteral with
  | some (value, []) => some value
  | _ => none

end SourceJar.Java
