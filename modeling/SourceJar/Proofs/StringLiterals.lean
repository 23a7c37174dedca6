import SourceJar.Proofs.JavaReading

/-!
String constants read back.

What is written for a character comes through both readings of source text (`Survives`): its Unicode escapes, if it has
one, are read whatever stands before and after it, because it is written after an even number of backslashes in a row
and leaves an even number behind, and of the code units that this gives none ends the literal or its line. So a
literal is read character by character.

- `survives_escapeChar`: one character.
- `stringValue?_constant`: a string constant is one literal, whose value is the string and no other.
-/

namespace SourceJar.Java

/-- A text that stands for a character in string literals, and its code units: they are read off the text after an even
number of backslashes, and the character is read off them. -/
structure Survives (c : Char) (text : List Char) (units : List UInt16) : Prop where
  escapes : ∀ rest, readEscapes true (text ++ rest) = (readEscapes true rest).map (units ++ ·)
  value : ∀ rest, readString (units ++ rest) = (readString rest).map (prependUnits (charUnits c))
  first : ∃ unit rest, units = unit :: rest ∧ unit ≠ unitOf '"'

/-- A backslash and a letter or sign that it escapes. -/
theorem survives_escape {c letter : Char} (value : UInt16) (hletter : letterEscape? (unitOf letter) = some value)
    (hlt : letter.toNat < 0x10000) (hu : letter ≠ 'u') (hc : charUnits c = [value]) :
    Survives c ['\\', letter] [unitOf '\\', unitOf letter] := by
  refine ⟨fun rest => ?_, fun rest => ?_, _, _, rfl, by decide⟩
  · have hsecond : readEscapes false (letter :: rest) = (readEscapes true rest).map (unitOf letter :: ·) := by
      by_cases hb : letter = '\\'
      · rw [hb]
        exact readEscapes_backslash false rest (by simp)
      · rw [readEscapes_other false rest hb, charUnits_of_lt hlt]
        rfl
    rw [List.cons_append, List.singleton_append, readEscapes_backslash true _ (by simpa using hu)]
    rw [Bool.not_true, hsecond, Option.map_map]
    rfl
  · rw [hc]
    exact readString_escape hletter rest

/-- The code units of a character that needs no escape stand for themselves. -/
theorem readString_charUnits {c : Char} (hc : c ∉ ['"', '\n', '\r', '\\']) (rest : List UInt16) :
    readString (charUnits c ++ rest) = (readString rest).map (prependUnits (charUnits c)) ∧
      ∃ unit others, charUnits c = unit :: others ∧ unit ≠ unitOf '"' := by
  have hunits := charUnits_notMem (by simp) hc
  have hquote : ∀ {unit}, unit ∉ ['"', '\n', '\r', '\\'].map unitOf → unit ≠ unitOf '"' :=
    fun h e => h (e ▸ List.mem_cons_self)
  by_cases hlt : c.toNat < 0x10000
  · rw [charUnits_of_lt hlt] at hunits ⊢
    have h := hunits _ List.mem_cons_self
    exact ⟨readString_other h rest, _, _, rfl, hquote h⟩
  · rw [charUnits, if_neg hlt] at hunits ⊢
    have hhigh := hunits _ List.mem_cons_self
    have hlow := hunits _ (List.mem_cons_of_mem _ List.mem_cons_self)
    refine ⟨?_, _, _, rfl, hquote hhigh⟩
    rw [List.cons_append, List.singleton_append, readString_other hhigh, readString_other hlow, Option.map_map,
      prependUnits_comp]
    rfl

/-- What is written for a character stands for it. -/
theorem survives_escapeChar (c : Char) : ∃ units, Survives c (escapeChar c) units := by
  unfold escapeChar
  by_cases hq : c = '"'
  · rw [if_pos hq, hq]
    exact ⟨_, survives_escape (unitOf '"') (by decide) (by decide) (by decide) (by decide)⟩
  rw [if_neg hq]
  by_cases hb : c = '\\'
  · rw [if_pos hb, hb]
    exact ⟨_, survives_escape (unitOf '\\') (by decide) (by decide) (by decide) (by decide)⟩
  rw [if_neg hb]
  by_cases hn : c = '\n'
  · rw [if_pos hn, hn]
    exact ⟨_, survives_escape 0x0A (by decide) (by decide) (by decide) (by decide)⟩
  rw [if_neg hn]
  by_cases hr : c = '\r'
  · rw [if_pos hr, hr]
    exact ⟨_, survives_escape 0x0D (by decide) (by decide) (by decide) (by decide)⟩
  rw [if_neg hr]
  by_cases ht : c = '\t'
  · rw [if_pos ht, ht]
    exact ⟨_, survives_escape 0x09 (by decide) (by decide) (by decide) (by decide)⟩
  rw [if_neg ht]
  have hc : c ∉ ['"', '\n', '\r', '\\'] := by simp [hq, hb, hn, hr]
  refine ⟨charUnits c, fun rest => ?_, fun rest => (readString_charUnits hc rest).1, (readString_charUnits hc []).2⟩
  split
  · rename_i hcontrol
    have hlt : c.toNat < 0x10000 := by
      simp only [isControl, Bool.or_eq_true, Bool.and_eq_true, decide_eq_true_eq] at hcontrol
      omega
    rw [charUnits_of_lt hlt]
    exact readEscapes_hex4 rest hlt
  · exact readEscapes_other true rest hb

/-- The characters of a string literal are read one after another. -/
theorem survives_flatMap (text : List Char) :
    ∃ units, (∀ rest, readEscapes true (text.flatMap escapeChar ++ rest) =
        (readEscapes true rest).map (units ++ ·)) ∧
      (∀ rest, readString (units ++ rest) = (readString rest).map (prependUnits (codeUnits text))) ∧
      units.head? ≠ some (unitOf '"') := by
  induction text with
  | nil => exact ⟨[], fun rest => by simp, fun rest => by simp [codeUnits, prependUnits_nil], by simp⟩
  | cons c text ih =>
    obtain ⟨units, hescapes, hvalue, -⟩ := ih
    obtain ⟨first, h⟩ := survives_escapeChar c
    refine ⟨first ++ units, fun rest => ?_, fun rest => ?_, ?_⟩
    · rw [List.flatMap_cons, List.append_assoc, h.escapes, hescapes, Option.map_map]
      congr 1
      funext read
      exact (List.append_assoc _ _ _).symm
    · rw [List.append_assoc, h.value, hvalue, Option.map_map, prependUnits_comp]
      rfl
    · obtain ⟨unit, rest, rfl, hunit⟩ := h.first
      simpa using hunit

/-- Whatever the type of its field, a string constant is written as one literal and nothing else, and of all strings the
literal has the value of this one. -/
theorem stringValue?_constant (s t type : String) :
    stringValue? (constant (.string s) type) = some (codeUnits t.toList) ↔ t = s := by
  have hread : stringValue? (constant (.string s) type) = some (codeUnits s.toList) := by
    obtain ⟨units, hescapes, hvalue, hfirst⟩ := survives_flatMap s.toList
    have htranslated : readEscapes true (constant (.string s) type).toList =
        some (unitOf '"' :: (units ++ [unitOf '"'])) := by
      rw [constant, stringLiteral, String.toList_ofList, List.cons_append, readEscapes_other true _ (by decide),
        hescapes, readEscapes_other true _ (by decide), readEscapes]
      rfl
    have hone : (units ++ [unitOf '"']).take 2 ≠ [unitOf '"', unitOf '"'] := by
      rcases units with _ | ⟨unit, rest⟩
      · decide
      · intro e
        rw [List.cons_append, List.take_succ_cons] at e
        exact hfirst (congrArg some (List.cons.inj e).1)
    have hend : readString [unitOf '"'] = some ([], []) := by rw [readString, if_pos rfl]
    rw [stringValue?, htranslated, Option.bind_some, readLiteral, if_pos ⟨rfl, hone⟩, hvalue, hend]
    simp [prependUnits]
  rw [hread, Option.some.injEq]
  constructor
  · exact fun e => (String.toList_inj.mp (codeUnits_inj e)).symm
  · rintro rfl
    rfl

/-- Backslashes in a row before a control character and before a letter u. -/
example : stringValue? (constant (.string "\\\\\x01\\u0041") "String") =
    some (codeUnits "\\\\\x01\\u0041".toList) := by
  simp only [constant, stringLiteral]
  cbv

end SourceJar.Java
