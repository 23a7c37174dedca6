import SourceJar.Proofs.FieldTypes

/-!
How field types are written and spelled.

A text begins with a type if it begins with some brackets, at most 255, and an element (`BeginsWith`): a letter for a
primitive type, `V` without any bracket, or `L`, the name of a class and a semicolon (`IsElement`). Source text spells
the element first and then a pair of brackets for each dimension. Neither relation knows of the reader, and a text
begins with a type in one way only, so both say what the reader does.

- `isElement_iff`: the elements of the grammar, with their spellings.
- `beginsWith_iff`: the types of the grammar, at the beginning of a text.
- `read_first_type`: what is read off a text, what is left of it, and which texts are refused.
-/

namespace SourceJar

namespace FieldType

/-- The elements that stand behind `d` brackets, as descriptors write them and as source text spells them. -/
inductive IsElement (d : Nat) : (element : List Char) → (spelling : String) → Prop
  | byte : IsElement d ['B'] "byte"
  | char : IsElement d ['C'] "char"
  | double : IsElement d ['D'] "double"
  | float : IsElement d ['F'] "float"
  | int : IsElement d ['I'] "int"
  | long : IsElement d ['J'] "long"
  | short : IsElement d ['S'] "short"
  | boolean : IsElement d ['Z'] "boolean"
  | void : d = 0 → IsElement d ['V'] "void"
  | object {name : List Char} {spelling : String} : name ≠ [] → ';' ∉ name → SourceName name spelling →
      IsElement d ('L' :: name ++ [';']) spelling

/-- A text is some brackets, an element that may stand behind them, and the rest. -/
structure BeginsWith (text : List Char) (d : Nat) (element : List Char) (spelling : String) (rest : List Char) :
    Prop where
  dimensions_le : d ≤ 255
  isElement : IsElement d element spelling
  text_eq : text = List.replicate d '[' ++ element ++ rest

/-- A type as source text spells it, and what is left of the text that it was read off. -/
def spelled : FieldType × List Char → String × String := fun (t, rest) => (t.spelling, String.ofList rest)

theorem isElement_iff {d : Nat} {element : List Char} {spelling : String} :
    IsElement d element spelling ↔ ∃ e : ElementType, (e.WellFormed ∨ d = 0 ∧ e = .void) ∧ e.encode = element ∧
      e.spelling = spelling := by
  constructor
  · rintro (_ | _ | _ | _ | _ | _ | _ | _ | hd | ⟨hne, hsemicolon, hname⟩)
    · exact ⟨.byte, .inl trivial, rfl, rfl⟩
    · exact ⟨.char, .inl trivial, rfl, rfl⟩
    · exact ⟨.double, .inl trivial, rfl, rfl⟩
    · exact ⟨.float, .inl trivial, rfl, rfl⟩
    · exact ⟨.int, .inl trivial, rfl, rfl⟩
    · exact ⟨.long, .inl trivial, rfl, rfl⟩
    · exact ⟨.short, .inl trivial, rfl, rfl⟩
    · exact ⟨.boolean, .inl trivial, rfl, rfl⟩
    · exact ⟨.void, .inr ⟨hd, rfl⟩, rfl, rfl⟩
    · exact ⟨.object _, .inl ⟨hne, hsemicolon⟩, rfl, sourceName_iff.mp hname⟩
  · rintro ⟨e, he, rfl, rfl⟩
    cases e with
    | void => exact .void (he.resolve_left id).1
    | object name =>
      obtain ⟨hne, hsemicolon⟩ : name ≠ [] ∧ ';' ∉ name := he.resolve_right (by simp)
      exact .object hne hsemicolon (sourceName_iff.mpr rfl)
    | byte => exact .byte
    | char => exact .char
    | double => exact .double
    | float => exact .float
    | int => exact .int
    | long => exact .long
    | short => exact .short
    | boolean => exact .boolean

/-- A text begins with a type of the grammar exactly if it begins with brackets and an element. -/
theorem beginsWith_iff {text rest element : List Char} {d : Nat} {spelling : String} :
    BeginsWith text d element spelling rest ↔ ∃ t : FieldType, read? text = some (t, rest) ∧ t.dimensions = d ∧
      t.element.encode = element ∧ t.element.spelling = spelling := by
  simp only [read?_eq_some_iff]
  constructor
  · rintro ⟨hd, helement, htext⟩
    obtain ⟨e, he, rfl, rfl⟩ := isElement_iff.mp helement
    refine ⟨⟨d, e⟩, ⟨?_, htext⟩, rfl, rfl, rfl⟩
    rcases he with he | ⟨rfl, rfl⟩
    · exact .inl ⟨hd, he⟩
    · exact .inr rfl
  · rintro ⟨t, ⟨ht, htext⟩, rfl, rfl, rfl⟩
    rcases ht with ht | rfl
    · exact ⟨ht.dimensions_le, isElement_iff.mpr ⟨_, .inl ht.element, rfl, rfl⟩, htext⟩
    · exact ⟨Nat.zero_le _, .void rfl, htext⟩

theorem BeginsWith.append {text rest element : List Char} {d : Nat} {spelling : String}
    (h : BeginsWith text d element spelling rest) (more : List Char) :
    BeginsWith (text ++ more) d element spelling (rest ++ more) :=
  ⟨h.dimensions_le, h.isElement, by rw [h.text_eq, List.append_assoc]⟩

/-- A text begins with a type in one way only. -/
theorem BeginsWith.unique {text element element' rest rest' : List Char} {d d' : Nat} {spelling spelling' : String}
    (h : BeginsWith text d element spelling rest) (h' : BeginsWith text d' element' spelling' rest') :
    d = d' ∧ element = element' ∧ spelling = spelling' ∧ rest = rest' := by
  obtain ⟨t, ht, rfl, rfl, rfl⟩ := beginsWith_iff.mp h
  obtain ⟨t', ht', rfl, rfl, rfl⟩ := beginsWith_iff.mp h'
  rw [ht] at ht'
  cases ht'
  exact ⟨rfl, rfl, rfl, rfl⟩

theorem spelled_eq_ok_iff {text : List Char} {type rest : String} :
    (read text).map spelled = .ok (type, rest) ↔ ∃ d element spelling,
      BeginsWith text d element spelling rest.toList ∧ type = spelling ++ String.join (List.replicate d "[]") := by
  constructor
  · intro h
    cases hread : read? text with
    | none =>
      rw [read, hread] at h
      cases h
    | some found =>
      rw [read, hread] at h
      cases h
      refine ⟨_, _, _, beginsWith_iff.mpr ⟨found.1, ?_, rfl, rfl, rfl⟩, rfl⟩
      rw [hread, String.toList_ofList]
  · rintro ⟨d, element, spelling, hbegins, rfl⟩
    obtain ⟨t, hread, rfl, rfl, rfl⟩ := beginsWith_iff.mp hbegins
    rw [read, hread]
    simp [Except.map, spelled, FieldType.spelling]

theorem spelled_eq_error_iff {text : List Char} {fault : FormatError} :
    (read text).map spelled = .error fault ↔ fault = .malformedDescriptor (String.ofList text) ∧
      ∀ d element spelling rest, ¬BeginsWith text d element spelling rest := by
  cases hread : read? text with
  | none =>
    have hnone : ∀ d element spelling rest, ¬BeginsWith text d element spelling rest := by
      intro d element spelling rest h
      obtain ⟨t, ht, -⟩ := beginsWith_iff.mp h
      rw [hread] at ht
      cases ht
    rw [read, hread]
    constructor
    · rintro ⟨rfl⟩
      exact ⟨rfl, hnone⟩
    · rintro ⟨rfl, -⟩
      rfl
  | some found =>
    rw [read, hread]
    refine iff_of_false (fun h => by cases h) fun h => ?_
    exact h.2 _ _ _ found.2 (beginsWith_iff.mpr ⟨found.1, hread, rfl, rfl, rfl⟩)

/-- Reading a field type. It is read off a text exactly if the text begins with brackets and an element, which is so in
one way at most, and is then given as source text spells it; every other text is refused by a fault that names it. What
is left of the text is a shorter end of it, and text after a type changes nothing but what is left. -/
theorem read_first_type (text : String) :
    (∀ type rest, (read text.toList).map spelled = .ok (type, rest) ↔ ∃ d element spelling,
      BeginsWith text.toList d element spelling rest.toList ∧
        type = spelling ++ String.join (List.replicate d "[]")) ∧
    (∀ fault, (read text.toList).map spelled = .error fault ↔ fault = .malformedDescriptor text ∧
      ∀ d element spelling rest, ¬BeginsWith text.toList d element spelling rest) ∧
    (∀ d d' element element' spelling spelling' rest rest', BeginsWith text.toList d element spelling rest →
      BeginsWith text.toList d' element' spelling' rest' →
      d = d' ∧ element = element' ∧ spelling = spelling' ∧ rest = rest') ∧
    ∀ type rest, (read text.toList).map spelled = .ok (type, rest) →
      rest.toList <:+ text.toList ∧ rest.length < text.length ∧
        ∀ more : String, (read (text ++ more).toList).map spelled = .ok (type, rest ++ more) := by
  refine ⟨fun type rest => spelled_eq_ok_iff, fun fault => ?_, fun _ _ _ _ _ _ _ _ => BeginsWith.unique,
    fun type rest h => ?_⟩
  · rw [spelled_eq_error_iff, String.ofList_toList]
  · obtain ⟨d, element, spelling, hbegins, rfl⟩ := spelled_eq_ok_iff.mp h
    obtain ⟨t, hread, -⟩ := beginsWith_iff.mp hbegins
    refine ⟨?_, ?_, fun more => ?_⟩
    · rw [hbegins.text_eq]
      exact List.suffix_append _ _
    · rw [← String.length_toList, ← String.length_toList]
      exact length_read? hread
    · refine spelled_eq_ok_iff.mpr ⟨d, element, spelling, ?_, rfl⟩
      rw [String.toList_append, String.toList_append]
      exact hbegins.append more.toList

/-- A class that is directly in `java.lang`, behind two brackets and before another type. -/
example : ((read "[[Ljava/lang/String;I".toList).map spelled).toOption = some ("String[][]", "I") := by
  decide +kernel

end FieldType

end SourceJar
