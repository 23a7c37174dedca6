import SourceJar.Proofs.FieldTypes

/-!
The grammar of method descriptors.

A method descriptor is a parenthesised row of parameter types and a result (`MethodType.WellFormed`). It is read from
left to right up to the first fault, and every text either is a descriptor or has a first fault (`FirstFault`), never
both. A fault names the text from the faulty place on if no type stands there, and else the whole text.

- `readParameters_append`: parameters at the front of a text are read one after another.
- `exists_parameters`: every text is a row of parameters and a place where the row is closed or breaks off.
- `read_exact`: what is read, what is refused and with which fault, for every text.
-/

namespace SourceJar

namespace MethodType

open FieldType

/-! ## The grammar -/

/-- The types of parameters: field types that source text does not spell `void`. -/
structure IsParameter (t : FieldType) : Prop where
  wellFormed : t.WellFormed
  notVoid : t.spelling ≠ "void"

/-- The types that descriptors stand for. -/
structure WellFormed (t : MethodType) : Prop where
  parameters : ∀ p ∈ t.parameters, IsParameter p
  result : t.result.IsResult

/-- The spellings of the parameters and of the result. -/
def spellings (t : MethodType) : List String × String := (t.parameters.map spelling, t.result.spelling)

/-- What is left of a text is neither a parameter nor the end of a row of parameters, and what the fault names. -/
inductive Breaks (whole : List Char) : (rest named : List Char) → Prop
  | unclosed : Breaks whole [] whole
  | void {t : FieldType} {rest : List Char} : t.IsResult → t.spelling = "void" →
      Breaks whole (t.encode ++ rest) whole
  | noType {rest : List Char} : rest ≠ [] → rest.head? ≠ some ')' → ¬Begins rest → Breaks whole rest rest

/-- The first fault of a text that is no descriptor, and what it names. -/
inductive FirstFault (text : List Char) : (named : List Char) → Prop
  | unopened : text.head? ≠ some '(' → FirstFault text text
  | parameter {front : List FieldType} {rest named : List Char} : (∀ p ∈ front, IsParameter p) →
      text = '(' :: (front.flatMap FieldType.encode ++ rest) → Breaks text rest named → FirstFault text named
  | noResult {front : List FieldType} {rest : List Char} : (∀ p ∈ front, IsParameter p) →
      text = '(' :: (front.flatMap FieldType.encode ++ ')' :: rest) → ¬Begins rest → FirstFault text rest
  | trailing {t : MethodType} {rest : List Char} : t.WellFormed → rest ≠ [] → text = t.encode ++ rest →
      FirstFault text text

theorem encode_append (t : MethodType) (rest : List Char) :
    t.encode ++ rest = '(' :: (t.parameters.flatMap FieldType.encode ++ ')' :: (t.result.encode ++ rest)) := by
  simp [encode]

/-! ## Rows of parameters -/

section

variable (whole : List Char)

/-- One round of the loop over parameters, unless the row ends. -/
theorem readParameters_round {text : List Char} (hne : text ≠ []) (hopen : text.head? ≠ some ')') :
    readParameters whole text =
      match read? text with
      | none => .error (.malformedDescriptor (String.ofList text))
      | some (t, rest) =>
        if t.isSpelledVoid then .error (.malformedDescriptor (String.ofList whole))
        else (readParameters whole rest).map fun (types, after) => (t :: types, after) := by
  cases text with
  | nil => exact absurd rfl hne
  | cons c tail =>
    have hc : c ≠ ')' := fun e => hopen (congrArg some e)
    rw [readParameters]
    · split <;> rename_i hread <;> rw [hread]
      simp only
      split
      · rfl
      · cases readParameters whole _ <;> rfl
    · exact hc

theorem readParameters_parameter {t : FieldType} (ht : IsParameter t) (rest : List Char) :
    readParameters whole (t.encode ++ rest) =
      (readParameters whole rest).map fun (types, after) => (t :: types, after) := by
  obtain ⟨c, tail, htext, hc⟩ := exists_encode_cons (t := t) rest
  have hvoid : ¬t.isSpelledVoid = true := fun h => ht.notVoid (isSpelledVoid_iff.mp h)
  rw [readParameters_round whole (by simp [htext]) (by simpa [htext] using hc),
    read?_encode (Or.inl ht.wellFormed)]
  simp only [if_neg hvoid]

/-- Parameters at the front of a text are read, and then what follows them. -/
theorem readParameters_append {front : List FieldType} (hfront : ∀ p ∈ front, IsParameter p) (rest : List Char) :
    readParameters whole (front.flatMap FieldType.encode ++ rest) =
      (readParameters whole rest).map fun (types, after) => (front ++ types, after) := by
  induction front with
  | nil =>
    simp only [List.flatMap_nil, List.nil_append]
    cases readParameters whole rest <;> rfl
  | cons t front ih =>
    have ht : IsParameter t := hfront t List.mem_cons_self
    have hrest : ∀ p ∈ front, IsParameter p := fun p hp => hfront p (List.mem_cons_of_mem t hp)
    rw [List.flatMap_cons, List.append_assoc, readParameters_parameter whole ht, ih hrest]
    cases readParameters whole rest <;> rfl

/-- A row of parameters up to its closing parenthesis. -/
theorem readParameters_closed {front : List FieldType} (hfront : ∀ p ∈ front, IsParameter p) (rest : List Char) :
    readParameters whole (front.flatMap FieldType.encode ++ ')' :: rest) = .ok (front, rest) := by
  have hclose : readParameters whole (')' :: rest) = .ok ([], rest) := by rw [readParameters]
  rw [readParameters_append whole hfront, hclose]
  simp [Except.map]

/-- A row of parameters that breaks off. -/
theorem readParameters_breaks {rest named : List Char} (h : Breaks whole rest named) :
    readParameters whole rest = .error (.malformedDescriptor (String.ofList named)) := by
  cases h with
  | unclosed => rw [readParameters]
  | @void t rest ht hvoid =>
    obtain ⟨c, tail, htext, hc⟩ := exists_encode_cons (t := t) rest
    rw [readParameters_round whole (by simp [htext]) (by simpa [htext] using hc), read?_encode ht]
    simp only [if_pos (isSpelledVoid_iff.mpr hvoid)]
  | noType hne hopen hbegins =>
    rw [readParameters_round whole hne hopen, read?_eq_none_iff.mpr hbegins]

/-- Every text is a row of parameters, as long as it goes, and a place where the row is closed or breaks off. -/
theorem exists_parameters (text : List Char) :
    ∃ (front : List FieldType) (rest : List Char), (∀ p ∈ front, IsParameter p) ∧
      text = front.flatMap FieldType.encode ++ rest ∧
      ((∃ after, rest = ')' :: after) ∨ ∃ named, Breaks whole rest named) := by
  -- a parameter uses up some of the text, so the induction is on its length
  induction hn : text.length using Nat.strongRecOn generalizing text with
  | ind n ih =>
    have hstop : (∃ after, text = ')' :: after) ∨ (∃ named, Breaks whole text named) →
        ∃ (front : List FieldType) (rest : List Char), (∀ p ∈ front, IsParameter p) ∧
          text = front.flatMap FieldType.encode ++ rest ∧
          ((∃ after, rest = ')' :: after) ∨ ∃ named, Breaks whole rest named) :=
      fun h => ⟨[], text, by simp, by simp, h⟩
    by_cases hne : text = []
    · exact hstop (Or.inr ⟨whole, hne ▸ Breaks.unclosed⟩)
    by_cases hclose : text.head? = some ')'
    · obtain ⟨after, h⟩ := List.head?_eq_some_iff.mp hclose
      exact hstop (Or.inl ⟨after, h⟩)
    by_cases hbegins : Begins text
    · obtain ⟨t, rest, ht, rfl⟩ := hbegins
      by_cases hvoid : t.spelling = "void"
      · exact hstop (Or.inr ⟨whole, Breaks.void ht hvoid⟩)
      · have hparameter : IsParameter t := by
          rcases ht with ht | rfl
          · exact ⟨ht, hvoid⟩
          · exact absurd (spelling_eq_void_iff.mpr ⟨rfl, Or.inl rfl⟩) hvoid
        have hshorter : rest.length < n := hn ▸ length_read? (read?_encode ht rest)
        obtain ⟨front, last, hfront, rfl, hend⟩ := ih rest.length hshorter rest rfl
        refine ⟨t :: front, last, ?_, by simp, hend⟩
        intro p hp
        rcases List.mem_cons.mp hp with rfl | hp
        · exact hparameter
        · exact hfront p hp
    · exact hstop (Or.inr ⟨text, Breaks.noType hne hclose hbegins⟩)

end

/-! ## Whole descriptors -/

theorem read_encode {t : MethodType} (ht : t.WellFormed) : read t.encode = .ok t := by
  have htext : t.encode = '(' :: (t.parameters.flatMap FieldType.encode ++ ')' :: t.result.encode) := by
    simpa using encode_append t []
  have hresult : FieldType.read t.result.encode = .ok (t.result, []) := by
    have h := read?_encode ht.result []
    rw [List.append_nil] at h
    rw [FieldType.read, h]
  rw [htext, read, readParameters_closed _ ht.parameters]
  change (FieldType.read t.result.encode >>= _) = _
  rw [hresult]
  rfl

theorem read_firstFault {text named : List Char} (h : FirstFault text named) :
    read text = .error (.malformedDescriptor (String.ofList named)) := by
  cases h with
  | unopened hopen =>
    rw [read]
    intro rest e
    rw [e] at hopen
    exact hopen rfl
  | parameter hfront htext hbreaks =>
    have hread := readParameters_append text hfront
    rw [htext, read, ← htext, hread, readParameters_breaks text hbreaks]
    rfl
  | noResult hfront htext hbegins =>
    have hresult : FieldType.read named = .error (.malformedDescriptor (String.ofList named)) := by
      rw [FieldType.read, read?_eq_none_iff.mpr hbegins]
    rw [htext, read, ← htext, readParameters_closed text hfront]
    change (FieldType.read named >>= _) = _
    rw [hresult]
    rfl
  | @trailing t rest ht hne htext =>
    have hresult : FieldType.read (t.result.encode ++ rest) = .ok (t.result, rest) := by
      rw [FieldType.read, read?_encode ht.result]
    have hempty : ¬rest.isEmpty = true := fun e => hne (List.isEmpty_iff.mp e)
    rw [encode_append] at htext
    rw [htext, read, ← htext, readParameters_closed text ht.parameters]
    change (FieldType.read (t.result.encode ++ rest) >>= _) = _
    rw [hresult]
    exact if_neg hempty

/-- Every text is a descriptor, or has a first fault. -/
theorem wellFormed_or_firstFault (text : List Char) :
    (∃ t : MethodType, t.WellFormed ∧ text = t.encode) ∨ ∃ named, FirstFault text named := by
  by_cases hopen : text.head? = some '('
  · obtain ⟨body, htext⟩ := List.head?_eq_some_iff.mp hopen
    obtain ⟨front, rest, hfront, rfl, ⟨after, rfl⟩ | ⟨named, hbreaks⟩⟩ := exists_parameters text body
    · by_cases hbegins : Begins after
      · obtain ⟨t, trailing, ht, rfl⟩ := hbegins
        have hform : WellFormed ⟨front, t⟩ := ⟨hfront, ht⟩
        by_cases hend : trailing = []
        · exact Or.inl ⟨⟨front, t⟩, hform, by simp [htext, hend, encode]⟩
        · exact Or.inr ⟨text, FirstFault.trailing hform hend (by rw [htext, encode_append])⟩
      · exact Or.inr ⟨after, FirstFault.noResult hfront htext hbegins⟩
    · exact Or.inr ⟨named, FirstFault.parameter hfront htext hbreaks⟩
  · exact Or.inr ⟨text, FirstFault.unopened hopen⟩

theorem read_eq_ok_iff {text : List Char} {t : MethodType} :
    read text = .ok t ↔ t.WellFormed ∧ text = t.encode := by
  constructor
  · intro h
    rcases wellFormed_or_firstFault text with ⟨t', ht', rfl⟩ | ⟨named, hfault⟩
    · rw [read_encode ht'] at h
      cases h
      exact ⟨ht', rfl⟩
    · rw [read_firstFault hfault] at h
      cases h
  · rintro ⟨ht, rfl⟩
    exact read_encode ht

theorem read_eq_error_iff {text : List Char} {e : FormatError} :
    read text = .error e ↔ ∃ named, FirstFault text named ∧ e = .malformedDescriptor (String.ofList named) := by
  constructor
  · intro h
    rcases wellFormed_or_firstFault text with ⟨t, ht, rfl⟩ | ⟨named, hfault⟩
    · rw [read_encode ht] at h
      cases h
    · rw [read_firstFault hfault] at h
      cases h
      exact ⟨named, hfault, rfl⟩
  · rintro ⟨named, hfault, rfl⟩
    exact read_firstFault hfault

/-- Each type has at least one character, so a row of types is no longer than its written form. -/
theorem length_le_flatMap_encode (front : List FieldType) :
    front.length ≤ (front.flatMap FieldType.encode).length := by
  induction front with
  | nil => exact Nat.le_refl 0
  | cons t front ih =>
    obtain ⟨c, tail, htext, -⟩ := exists_encode_cons (t := t) []
    have hpos : 0 < t.encode.length := by
      rw [List.append_nil] at htext
      simp [htext]
    simp only [List.length_cons, List.flatMap_cons, List.length_append]
    omega

/-- Reading a method descriptor. A text is read exactly if it is the written form of parameters and a result, which are
then the only ones it is written for, and gives their spellings; every other text is refused with its first fault. After
the rounds for any parameters at its front the loop goes on with what is left, and these rounds are fewer than the text
has characters. -/
theorem read_exact (descriptor : String) :
    (∀ parameters result, (read descriptor.toList).map spellings = .ok (parameters, result) ↔
      ∃ t : MethodType, t.WellFormed ∧ descriptor.toList = t.encode ∧ t.parameters.map spelling = parameters ∧
        t.result.spelling = result) ∧
    (∀ t t' : MethodType, t.WellFormed → t'.WellFormed → descriptor.toList = t.encode →
      descriptor.toList = t'.encode → t = t') ∧
    (∀ e, (read descriptor.toList).map spellings = .error e ↔
      ∃ named, FirstFault descriptor.toList named ∧ e = .malformedDescriptor (String.ofList named)) ∧
    ∀ (front : List FieldType) (rest : List Char), (∀ p ∈ front, IsParameter p) →
      descriptor.toList = '(' :: (front.flatMap FieldType.encode ++ rest) →
      readParameters descriptor.toList (front.flatMap FieldType.encode ++ rest) =
          (readParameters descriptor.toList rest).map (fun (types, after) => (front ++ types, after)) ∧
        front.length < descriptor.toList.length := by
  refine ⟨?_, ?_, ?_, ?_⟩
  · intro parameters result
    constructor
    · intro h
      cases hread : read descriptor.toList with
      | error e =>
        rw [hread] at h
        cases h
      | ok t =>
        rw [hread] at h
        cases h
        obtain ⟨ht, htext⟩ := read_eq_ok_iff.mp hread
        exact ⟨t, ht, htext, rfl, rfl⟩
    · rintro ⟨t, ht, htext, rfl, rfl⟩
      rw [read_eq_ok_iff.mpr ⟨ht, htext⟩]
      rfl
  · intro t t' ht ht' htext htext'
    have h := read_eq_ok_iff.mpr ⟨ht, htext⟩
    rw [read_eq_ok_iff.mpr ⟨ht', htext'⟩] at h
    exact (Except.ok.inj h).symm
  · intro e
    rw [← read_eq_error_iff]
    cases read descriptor.toList with
    | error e' => simp [Except.map]
    | ok t => simp [Except.map]
  · intro front rest hfront htext
    have hle := length_le_flatMap_encode front
    refine ⟨readParameters_append _ hfront rest, ?_⟩
    rw [htext, List.length_cons, List.length_append]
    omega

/-- A parenthesis in the name of a class, and a class that is spelled `void` as a result. -/
example : (read "(La)b;[J)Ljava/lang/void;".toList).toOption.map spellings = some (["a)b", "long[]"], "void") := by
  decide +kernel

end MethodType

end SourceJar
