import SourceJar.Proofs.ConstantExpressions
import SourceJar.Proofs.Decoding

/-!
Integral constants read back.

The constant of a `boolean`, `byte`, `short`, `char` or `int` field is kept as a word of 32 bits, and only its lowest
bits count. What is written for it is a constant expression with the value of the field (`fieldValue`): a cast makes up
for what a decimal number alone would not fit. The one exception are words that are code points above 0xFFFF, in fields
of the type `char`: they are characters, so they are written between quotes, but no value of the type.

- `evaluate_cast`, `evaluate_quoted`: what the two ways of writing are worth.
- `evaluate_constant`: the constants of all fields of integral types.
- `wide_character_constant`: the exception.
-/

namespace SourceJar.Java

/-! ## Decimal numbers and casts -/

theorem codeUnits_of_lt {text : List Char} (h : ∀ c ∈ text, c.toNat < 0x10000) : codeUnits text = text.map unitOf := by
  induction text with
  | nil => rfl
  | cons c rest ih =>
    obtain ⟨hc, hrest⟩ := List.forall_mem_cons.mp h
    rw [codeUnits, List.flatMap_cons, charUnits_of_lt hc, List.map_cons, ← ih hrest]
    rfl

theorem mem_integerText {n : Int} {c : Char} (h : c ∈ Decimal.integerText n) : c = '-' ∨ c.isDigit = true := by
  cases n with
  | ofNat n => exact Or.inr (Nat.isDigit_of_mem_toDigits (by decide) (by decide) h)
  | negSucc n =>
    rcases List.mem_cons.mp h with rfl | h
    · exact Or.inl rfl
    · exact Or.inr (Nat.isDigit_of_mem_toDigits (by decide) (by decide) h)

/-- A text in front of a decimal number is cut into its own tokens. -/
theorem evaluate_append_decimal {front : List Char} (hfront : '\\' ∉ front) (n : Int) (long : Bool) :
    evaluate (String.ofList (front ++ Decimal.integerText n ++ longMark long)) =
      (readTokens (codeUnits front ++ (Decimal.integerText n ++ longMark long).map unitOf)).bind evaluateTokens := by
  have hmem : ∀ c ∈ Decimal.integerText n ++ longMark long, c ≠ '\\' ∧ c.toNat < 0x10000 := by
    intro c hc
    rcases List.mem_append.mp hc with hc | hc
    · rcases mem_integerText hc with rfl | hd
      · decide
      · have hlt := (toNat_of_isDigit hd).2
        have h9 : '9'.toNat < 0x10000 := by decide
        refine ⟨?_, by omega⟩
        rintro rfl
        exact absurd hd (by decide)
    · have hmark : ∀ c ∈ longMark long, c = 'L' := by cases long <;> simp [longMark]
      rw [hmark c hc]
      decide
  rw [evaluate_plain, String.toList_ofList, List.append_assoc, codeUnits_append,
    codeUnits_of_lt fun c hc => (hmem c hc).2]
  rw [String.toList_ofList, List.append_assoc, List.mem_append, not_or]
  exact ⟨hfront, fun hm => (hmem _ hm).1 rfl⟩

theorem evaluate_decimal (n : Int) (long : Bool) (h : -(integerBound long : Int) ≤ n) (h' : n < integerBound long) :
    evaluate (String.ofList (Decimal.integerText n ++ longMark long)) = some (integerValue long n) := by
  have hplain : '\\' ∉ ([] : List Char) := List.not_mem_nil
  have hread := evaluate_append_decimal hplain n long
  rw [List.nil_append] at hread
  rw [hread, codeUnits, List.flatMap_nil, List.nil_append, readTokens_integer, Option.bind_some,
    evaluateTokens_integer long h h']

theorem readToken?_word {unit : UInt16} {word : List UInt16} (rest : List UInt16) (hdigit : isDigit unit = false)
    (hword : ∀ other ∈ unit :: word, isWordUnit other = true) (hrest : ∀ next ∈ rest.head?, isWordUnit next = false) :
    readToken? (unit :: word ++ rest) = some (.word (unit :: word), rest) := by
  have htake : (unit :: word ++ rest).takeWhile isWordUnit = unit :: word := by
    rw [List.takeWhile_append_of_pos hword]
    cases rest with
    | nil => simp
    | cons next rest => rw [List.takeWhile_cons, hrest next rfl, if_neg Bool.false_ne_true, List.append_nil]
  have hdrop : (unit :: word ++ rest).dropWhile isWordUnit = rest := by
    rw [List.dropWhile_append_of_pos hword]
    cases rest with
    | nil => rfl
    | cons next rest => rw [List.dropWhile_cons, hrest next rfl, if_neg Bool.false_ne_true]
  rw [List.cons_append] at htake hdrop ⊢
  rw [readToken?, hdigit, if_neg Bool.false_ne_true, if_pos (hword unit List.mem_cons_self), htake, hdrop]

/-- The text of a cast. -/
def castText (type : Primitive) : List Char := '(' :: type.keyword.toList ++ [')', ' ']

theorem readTokens_cast (type : Primitive) (rest : List UInt16) :
    readTokens (codeUnits (castText type) ++ rest) =
      (readTokens rest).map fun tokens =>
        .opening :: .word (codeUnits type.keyword.toList) :: .closing :: tokens := by
  obtain ⟨unit, word, hunits, hdigit, hblank, hword⟩ : ∃ unit word,
      codeUnits type.keyword.toList = unit :: word ∧ isDigit unit = false ∧ isBlank unit = false ∧
        ∀ other ∈ unit :: word, isWordUnit other = true := by
    cases type <;> exact ⟨_, _, rfl, by decide, by decide, List.all_eq_true.mp rfl⟩
  have htext : codeUnits (castText type) ++ rest =
      unitOf '(' :: (unit :: word ++ unitOf ')' :: unitOf ' ' :: rest) := by
    rw [castText, codeUnits_append, List.append_assoc, ← hunits]
    rfl
  have hopening (after : List UInt16) : readToken? (unitOf '(' :: after) = some (.opening, after) := by
    rw [readToken?, if_neg (by decide), if_neg (by decide), if_neg (by decide), if_pos rfl]
  have hclosing (after : List UInt16) : readToken? (unitOf ')' :: after) = some (.closing, after) := by
    rw [readToken?, if_neg (by decide), if_neg (by decide), if_neg (by decide), if_neg (by decide), if_pos rfl]
  have hnext : ∀ next ∈ (unitOf ')' :: unitOf ' ' :: rest).head?, isWordUnit next = false := by
    intro next hm
    cases hm
    decide
  have hspace : readTokens (unitOf ' ' :: rest) = readTokens rest := by rw [readTokens, if_pos (by decide)]
  have htoken := readToken?_word _ hdigit hword hnext
  rw [List.cons_append] at htext htoken
  rw [htext, readTokens_cons (by decide) (hopening _), readTokens_cons hblank htoken,
    readTokens_cons (by decide) (hclosing _), hspace, hunits]
  simp only [Option.map_map, Function.comp_def]

theorem primitive?_keyword (type : Primitive) : primitive? (codeUnits type.keyword.toList) = some type := by
  cases type <;> decide

/-- A cast in front of a number has the lowest bits of the number. -/
theorem evaluate_cast (type : Primitive) (value : Int32) :
    evaluate ("(" ++ type.keyword ++ ") " ++ decimal value.toInt) = type.wrap? value.toInt := by
  have htext : "(" ++ type.keyword ++ ") " ++ decimal value.toInt =
      String.ofList (castText type ++ Decimal.integerText value.toInt) := by
    apply String.toList_inj.mp
    simp [castText, decimal]
  have hplain : '\\' ∉ castText type := by cases type <;> decide
  have hread := evaluate_append_decimal hplain value.toInt false
  rw [longMark, if_neg Bool.false_ne_true, List.append_nil, List.append_nil] at hread
  have hinteger := readTokens_integer value.toInt false
  rw [longMark, if_neg Bool.false_ne_true, List.append_nil] at hinteger
  have hvalue := evaluateTokens_integer false value.le_toInt value.toInt_lt
  rw [integerValue, if_neg Bool.false_ne_true, Int32.ofInt_toInt] at hvalue
  rw [htext, hread, readTokens_cast, hinteger, Option.map_some, Option.bind_some, evaluateTokens, primitive?_keyword,
    hvalue]
  rfl

/-! ## Characters and truth values -/

/-- A character between quotes. -/
def quoted (c : Char) : String := String.ofList ['\'', c, '\'']

theorem readToken?_quote (rest : List UInt16) : readToken? (unitOf '\'' :: rest) = readCharacter? rest := by
  rw [readToken?, if_neg (by decide), if_neg (by decide), if_pos rfl]

theorem readUnit?_other {unit : UInt16} (h : unit ∉ ['\'', '\n', '\r', '\\'].map unitOf) (rest : List UInt16) :
    readUnit? (unit :: rest) = some (unit, rest) := by
  simp only [List.map_cons, List.map_nil, List.mem_cons, List.not_mem_nil, or_false, not_or] at h
  obtain ⟨hq, hn, hr, hb⟩ := h
  rw [readUnit?, if_neg (by simp [hq, hn, hr]), if_neg hb]

/-- A character between quotes is a constant expression exactly if it has one code unit. -/
theorem evaluate_quoted {c : Char} (h : c ∉ ['\'', '\n', '\r', '\\']) :
    evaluate (quoted c) = if c.toNat < 0x10000 then some (.char (unitOf c)) else none := by
  have hplain : '\\' ∉ (quoted c).toList := by
    rw [quoted, String.toList_ofList]
    simpa using fun e : '\\' = c => h (by simp [← e])
  rw [evaluate_plain hplain, quoted, String.toList_ofList]
  have hunits := charUnits_notMem (by simp) h
  split
  · rename_i hlt
    have hread : codeUnits ['\'', c, '\''] = [unitOf '\'', unitOf c, unitOf '\''] :=
      codeUnits_of_lt (by simp [hlt])
    rw [charUnits_of_lt hlt] at hunits
    have hcharacter : readCharacter? [unitOf c, unitOf '\''] = some (.character (unitOf c), []) := by
      rw [readCharacter?, readUnit?_other (hunits _ List.mem_cons_self)]
      exact if_pos rfl
    rw [hread, readTokens_cons (by decide) ((readToken?_quote _).trans hcharacter), readTokens_nil]
    rfl
  · rename_i hlt
    obtain ⟨high, low, hpair⟩ : ∃ high low, charUnits c = [high, low] := ⟨_, _, if_neg hlt⟩
    have hread : codeUnits ['\'', c, '\''] = unitOf '\'' :: ([high, low] ++ [unitOf '\'']) := by
      rw [← hpair]
      rfl
    rw [hpair] at hunits
    have hhigh := hunits high List.mem_cons_self
    have hlow := hunits low (List.mem_cons_of_mem _ List.mem_cons_self)
    have hquote : low ≠ unitOf '\'' := fun e => hlow (e ▸ List.mem_cons_self)
    have hcharacter : readCharacter? ([high, low] ++ [unitOf '\'']) = none := by
      rw [List.cons_append, readCharacter?, readUnit?_other hhigh]
      exact if_neg hquote
    rw [hread, readTokens_eq_none (by decide) ((readToken?_quote _).trans hcharacter)]
    rfl

theorem evaluate_truth (value : Bool) : evaluate (if value then "true" else "false") = some (.boolean value) := by
  have hread (unit : UInt16) (word : List UInt16) (hdigit : isDigit unit = false) (hblank : isBlank unit = false)
      (hword : ∀ other ∈ unit :: word, isWordUnit other = true) :
      readTokens (unit :: word) = some [.word (unit :: word)] := by
    have htoken := readToken?_word [] hdigit hword (by simp)
    rw [List.append_nil] at htoken
    rw [readTokens_cons hblank htoken, readTokens_nil]
    rfl
  cases value
  · rw [if_neg Bool.false_ne_true, evaluate_plain (by decide)]
    exact congrArg (Option.bind · evaluateTokens) (hread _ _ (by decide) (by decide) (List.all_eq_true.mp rfl))
  · rw [if_pos rfl, evaluate_plain (by decide)]
    exact congrArg (Option.bind · evaluateTokens) (hread _ _ (by decide) (by decide) (List.all_eq_true.mp rfl))

/-! ## The constants of fields -/

theorem charOfWord?_eq_some_iff {word : Int32} {c : Char} :
    charOfWord? word.toUInt32 = some c ↔ (c.toNat : Int) = word.toInt := by
  have hword : word.toInt = if 2 * word.toUInt32.toNat < 2 ^ 32 then (word.toUInt32.toNat : Int)
      else word.toUInt32.toNat - 2 ^ 32 := BitVec.toInt_eq_toNat_cond _
  have hlt : word.toUInt32.toNat < 2 ^ 32 := word.toUInt32.toBitVec.isLt
  have hc : c.toNat < 0xD800 ∨ 0xDFFF < c.toNat ∧ c.toNat < 0x110000 := c.valid
  have hnat : (c.toNat : Int) = word.toInt ↔ c.toNat = word.toUInt32.toNat := by
    split at hword <;> omega
  rw [hnat, charOfWord?]
  constructor
  · intro h
    split at h
    · rw [← Option.some.inj h]
      exact Utf8.toNat_charOfNat ‹_›
    · cases h
  · intro h
    rw [← h, Char.ofNat_toNat]
    exact if_pos c.valid

/-- A `char` constant is a character between quotes, which is no sign that ends the literal or its line, or a cast.
Words that are no code points, or are those of control characters, are cast. -/
theorem charConstant_cases (word : Int32) :
    (∃ c : Char, (c.toNat : Int) = word.toInt ∧ c ∉ ['\'', '\n', '\r', '\\'] ∧ charConstant word = quoted c) ∨
      (¬(0x10000 ≤ word.toInt ∧ word.toInt ≤ 0x10FFFF) ∧ charConstant word = "(char) " ++ decimal word.toInt) := by
  unfold charConstant
  rcases hc : charOfWord? word.toUInt32 with _ | c
  · refine Or.inr ⟨fun hwide => ?_, rfl⟩
    have hcode : (Char.ofNat word.toInt.toNat).toNat = word.toInt.toNat :=
      Utf8.toNat_charOfNat (Or.inr ⟨by omega, by omega⟩)
    have hword : ((Char.ofNat word.toInt.toNat).toNat : Int) = word.toInt := by omega
    have hsome := charOfWord?_eq_some_iff.mpr hword
    rw [hc] at hsome
    cases hsome
  · have hcode := charOfWord?_eq_some_iff.mp hc
    by_cases hsign : (isControl c || c == '\'' || c == '\\') = true
    · refine Or.inr ⟨?_, if_pos hsign⟩
      have hlow : c.toNat ≤ 0x9F := by
        rw [Bool.or_eq_true, Bool.or_eq_true, beq_iff_eq, beq_iff_eq] at hsign
        rcases hsign with (hcontrol | rfl) | rfl
        · simp only [isControl, Bool.or_eq_true, Bool.and_eq_true, decide_eq_true_eq] at hcontrol
          omega
        · decide
        · decide
      omega
    · refine Or.inl ⟨c, hcode, fun hm => hsign ?_, if_neg hsign⟩
      have hsigns : ∀ d ∈ ['\'', '\n', '\r', '\\'], (isControl d || d == '\'' || d == '\\') = true :=
        List.all_eq_true.mp rfl
      exact hsigns c hm

/-- The value of a field with a word for its constant: the lowest bits of the word, read with or without a sign; for a
`boolean`, whether it is not zero. -/
def fieldValue : Primitive → Int32 → Value
  | .boolean, word => .boolean (word != 0)
  | .byte, word => .byte word.toInt8
  | .short, word => .short word.toInt16
  | .char, word => .char (UInt16.ofNat (word.toInt % 2 ^ 16).toNat)
  | .int, word => .int word
  | .long, word => .long word.toInt64

/-- How a constant of a type is written: as a truth value, a decimal number, a decimal number with a cast, or, for a
`char`, also a character with one code unit between quotes. -/
def HasForm (type : Primitive) (word : Int32) (text : String) : Prop :=
  match type with
  | .boolean => text = "true" ∨ text = "false"
  | .int | .long => text = decimal word.toInt
  | .byte | .short => text = "(" ++ type.keyword ++ ") " ++ decimal word.toInt
  | .char => text = "(char) " ++ decimal word.toInt ∨
      ∃ c : Char, c.toNat < 0x10000 ∧ c ∉ ['\'', '\n', '\r', '\\'] ∧ text = quoted c

theorem constant_boolean (word : Int32) :
    constant (.int word) Primitive.boolean.keyword = if word != 0 then "true" else "false" := by
  have htext : constant (.int word) Primitive.boolean.keyword = if word = 0 then "false" else "true" := rfl
  rw [htext]
  by_cases h : word = 0
  · simp [h]
  · simp [h]

theorem evaluate_charConstant (word : Int32) :
    if 0x10000 ≤ word.toInt ∧ word.toInt ≤ 0x10FFFF then
      ∃ c : Char, (c.toNat : Int) = word.toInt ∧ charConstant word = quoted c ∧ evaluate (charConstant word) = none
    else HasForm .char word (charConstant word) ∧ evaluate (charConstant word) = some (fieldValue .char word) := by
  rcases charConstant_cases word with ⟨c, hcode, hsigns, e⟩ | ⟨hnarrow, e⟩
  · have hvalue := evaluate_quoted hsigns
    have hvalid : c.toNat < 0xD800 ∨ 0xDFFF < c.toNat ∧ c.toNat < 0x110000 := c.valid
    rw [e]
    split
    · rw [if_neg (by omega)] at hvalue
      exact ⟨c, hcode, rfl, hvalue⟩
    · have hlt : c.toNat < 0x10000 := by omega
      have hunit : UInt16.ofNat (word.toInt % 2 ^ 16).toNat = unitOf c := congrArg UInt16.ofNat (by omega)
      rw [if_pos hlt] at hvalue
      refine ⟨Or.inr ⟨c, hlt, hsigns, rfl⟩, hvalue.trans ?_⟩
      rw [fieldValue, hunit]
  · rw [if_neg hnarrow, e]
    exact ⟨Or.inl rfl, evaluate_cast .char word⟩

/-- Every constant of an integral field is a constant expression with the value of the field, but for characters above
0xFFFF: these stand between quotes, where just one code unit may stand. Every constant of a `long` field is a decimal
number with a mark, and has its value. -/
theorem evaluate_constant {type : Primitive} (htype : type ≠ .long) (word : Int32) (long : Int64) :
    let text := constant (.int word) type.keyword
    let longText := constant (.long long) Primitive.long.keyword
    (if type = .char ∧ 0x10000 ≤ word.toInt ∧ word.toInt ≤ 0x10FFFF then
        ∃ c : Char, (c.toNat : Int) = word.toInt ∧ text = quoted c ∧ evaluate text = none
      else HasForm type word text ∧ evaluate text = some (fieldValue type word)) ∧
    longText = decimal long.toInt ++ "L" ∧ evaluate longText = some (.long long) := by
  intro text longText
  have hcast : evaluate ("(" ++ type.keyword ++ ") " ++ decimal word.toInt) = type.wrap? word.toInt :=
    evaluate_cast type word
  refine ⟨?_, rfl, ?_⟩
  · cases type with
    | long => exact absurd rfl htype
    | boolean =>
      have htext : text = if word != 0 then "true" else "false" := constant_boolean word
      rw [if_neg (by simp), htext]
      refine ⟨?_, evaluate_truth _⟩
      cases word != 0
      · exact Or.inr rfl
      · exact Or.inl rfl
    | byte =>
      rw [if_neg (by simp)]
      exact ⟨rfl, hcast.trans (congrArg (some ∘ Value.byte) (Int8.ofInt_int32ToInt word))⟩
    | short =>
      rw [if_neg (by simp)]
      exact ⟨rfl, hcast.trans (congrArg (some ∘ Value.short) (Int16.ofInt_int32ToInt word))⟩
    | int =>
      have hvalue := evaluate_decimal word.toInt false word.le_toInt word.toInt_lt
      rw [longMark, if_neg Bool.false_ne_true, List.append_nil] at hvalue
      rw [if_neg (by simp)]
      exact ⟨rfl, hvalue.trans (congrArg (some ∘ Value.int) (Int32.ofInt_toInt word))⟩
    | char =>
      have htext : text = charConstant word := rfl
      rw [htext]
      simpa only [true_and] using evaluate_charConstant word
  · have hlong : longText = String.ofList (Decimal.integerText long.toInt ++ longMark true) := by
      apply String.toList_inj.mp
      simp [longText, constant, decimal, longMark]
    rw [hlong, evaluate_decimal long.toInt true long.le_toInt long.toInt_lt]
    exact congrArg (some ∘ Value.long) (Int64.ofInt_toInt long)

/-- A negative word in a `char` field, and the least number of the type `long`. -/
theorem negative_character_constant :
    evaluate (constant (.int (-1)) "char") = some (.char 0xFFFF) ∧
      constant (.long (-0x8000000000000000)) "long" = "-9223372036854775808L" ∧
      evaluate (constant (.long (-0x8000000000000000)) "long") = some (.long (-0x8000000000000000)) := by
  have htype : Primitive.char ≠ .long := by decide
  obtain ⟨hchar, htext, hvalue⟩ := evaluate_constant htype (-1) (-0x8000000000000000)
  rw [if_neg (by decide)] at hchar
  exact ⟨hchar.2, htext.trans (by decide +kernel), hvalue⟩

/-- A character above 0xFFFF in a `char` field. -/
theorem wide_character_constant :
    constant (.int 0x1F600) "char" = quoted '😀' ∧ evaluate (constant (.int 0x1F600) "char") = none := by
  have htext : constant (.int 0x1F600) "char" = quoted '😀' := by decide +kernel
  rw [htext, evaluate_quoted (by decide)]
  exact ⟨rfl, if_neg (by decide)⟩

end SourceJar.Java
