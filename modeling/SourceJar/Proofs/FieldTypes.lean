import SourceJar.ClassFile.Descriptor

/-!
The grammar of field types.

A field type is up to 255 brackets and an element: a letter for a primitive type, or `L`, the name of a class and a
semicolon (`FieldType.WellFormed`). Where a result stands, `V` may stand in place of a field type
(`FieldType.IsResult`). No written form is the beginning of another one, so a text begins with at most one type, and
that is the one that is read off it.

Source text leaves the package `java.lang` out (`FieldType.SourceName`), and a class may have any name, so `void` in
source text is not only how `V` is spelled (`FieldType.spelling_eq_void_iff`).

- `FieldType.read?_eq_some_iff`: what is read off a text is what it begins with.
- `FieldType.read?_eq_none_iff`: nothing is read off a text that begins with no type.
- `FieldType.sourceName_iff`: the spelling of a class.
- `FieldType.spelling_eq_void_iff`: `V`, and the classes `void` and `java.lang.void`, are spelled `void`.
-/

namespace SourceJar

/-! ## Elements -/

namespace ElementType

/-- The elements of field types. The name of a class is not empty, and ends at the semicolon. -/
def WellFormed : ElementType → Prop
  | .void => False
  | .object name => name ≠ [] ∧ ';' ∉ name
  | _ => True

/-- An element is read off its written form, whatever follows. -/
theorem read?_encode {e : ElementType} (h : e.WellFormed ∨ e = .void) (rest : List Char) :
    read? (e.encode ++ rest) = some (e, rest) := by
  cases e with
  | object name =>
    obtain ⟨hne, hsemicolon⟩ : name ≠ [] ∧ ';' ∉ name := h.resolve_right (by simp)
    have hcut : Split.cutFirst? ';' (name ++ ';' :: rest) = some (name, rest) :=
      Split.cutFirst?_eq_some_iff.mpr ⟨hsemicolon, rfl⟩
    have htext : encode (.object name) ++ rest = 'L' :: (name ++ ';' :: rest) := by simp [encode]
    rw [htext, read?, hcut]
    cases name with
    | nil => exact absurd rfl hne
    | cons c name => rfl
  | _ => rfl

/-- What is read off a text stands at its beginning. -/
theorem of_read? {e : ElementType} {text rest : List Char} (h : read? text = some (e, rest)) :
    (e.WellFormed ∨ e = .void) ∧ text = e.encode ++ rest := by
  unfold read? at h
  split at h
  case h_10 =>
    split at h
    · cases h
    · rename_i hne hcut
      obtain ⟨rfl, rfl⟩ := Prod.mk.inj (Option.some.inj h)
      obtain ⟨hsemicolon, rfl⟩ := Split.cutFirst?_eq_some_iff.mp hcut
      exact ⟨Or.inl ⟨hne, hsemicolon⟩, by simp [encode]⟩
    · cases h
  case h_11 => cases h
  all_goals
    obtain ⟨rfl, rfl⟩ := Prod.mk.inj (Option.some.inj h)
    simp [WellFormed, encode]

/-- No written form of an element begins with a bracket. -/
theorem head?_encode (e : ElementType) (rest : List Char) : (e.encode ++ rest).head? ≠ some '[' := by
  cases e <;> simp [encode]

end ElementType

/-! ## Types -/

namespace FieldType

/-- The field types: an element, and as many brackets as a type may have. -/
structure WellFormed (t : FieldType) : Prop where
  dimensions_le : t.dimensions ≤ 255
  element : t.element.WellFormed

/-- What `V` stands for. -/
def void : FieldType := ⟨0, .void⟩

/-- What may stand where a result is expected. -/
def IsResult (t : FieldType) : Prop := t.WellFormed ∨ t = void

/-- The text begins with a field type or `V`. -/
def Begins (text : List Char) : Prop := ∃ t rest, IsResult t ∧ text = t.encode ++ rest

/-- A text is its leading brackets and what follows them. -/
theorem replicate_append_dropWhile (text : List Char) :
    List.replicate (text.takeWhile (· == '[')).length '[' ++ text.dropWhile (· == '[') = text := by
  have hall : ∀ c ∈ text.takeWhile (· == '['), c = '[' := by
    intro c hc
    have h := List.all_eq_true.mp (List.all_takeWhile (p := (· == '[')) (l := text)) c hc
    exact beq_iff_eq.mp h
  rw [← List.eq_replicate_of_mem hall, List.takeWhile_append_dropWhile]

/-- Of brackets in front of another text, all are leading brackets and no others. -/
theorem leading_brackets (n : Nat) {text : List Char} (h : text.head? ≠ some '[') :
    (List.replicate n '[' ++ text).takeWhile (· == '[') = List.replicate n '[' ∧
      (List.replicate n '[' ++ text).dropWhile (· == '[') = text := by
  have hbrackets : ∀ c ∈ List.replicate n '[', (c == '[') = true := by
    intro c hc
    rw [(List.mem_replicate.mp hc).2]
    rfl
  have htext : text.takeWhile (· == '[') = [] ∧ text.dropWhile (· == '[') = text := by
    cases text with
    | nil => exact ⟨rfl, rfl⟩
    | cons c rest =>
      have hc : ¬(c == '[') = true := fun e => h (congrArg some (beq_iff_eq.mp e))
      exact ⟨List.takeWhile_cons_of_neg hc, List.dropWhile_cons_of_neg hc⟩
  rw [List.takeWhile_append_of_pos hbrackets, List.dropWhile_append_of_pos hbrackets, htext.1, htext.2]
  exact ⟨List.append_nil _, rfl⟩

/-- A type is read off a text exactly if the text begins with it. -/
theorem read?_eq_some_iff {t : FieldType} {text rest : List Char} :
    read? text = some (t, rest) ↔ IsResult t ∧ text = t.encode ++ rest := by
  constructor
  · intro h
    simp only [read?] at h
    split at h
    · cases h
    · rename_i hdimensions
      split at h
      · rename_i e rest' he
        obtain ⟨hform, htext⟩ := ElementType.of_read? he
        split at h
        · cases h
        · rename_i hvoid
          obtain ⟨rfl, rfl⟩ := Prod.mk.inj (Option.some.inj h)
          refine ⟨?_, ?_⟩
          · rcases hform with hform | rfl
            · exact Or.inl ⟨Nat.le_of_not_lt hdimensions, hform⟩
            · have hzero : (text.takeWhile (· == '[')).length = 0 := by
                apply Classical.byContradiction
                intro hne
                exact hvoid ⟨rfl, hne⟩
              exact Or.inr (by rw [hzero]; rfl)
          · have hsplit := replicate_append_dropWhile text
            rw [htext] at hsplit
            rw [encode, List.append_assoc]
            exact hsplit.symm
      · cases h
  · rintro ⟨ht, rfl⟩
    obtain ⟨hlead, hrest⟩ := leading_brackets t.dimensions (t.element.head?_encode rest)
    have helement : t.element.WellFormed ∨ t.element = .void := by
      rcases ht with ht | rfl
      · exact Or.inl ht.element
      · exact Or.inr rfl
    have hle : ¬maxDimensions < t.dimensions := by
      rcases ht with ht | rfl
      · exact Nat.not_lt.mpr ht.dimensions_le
      · exact Nat.not_lt.mpr (Nat.zero_le _)
    have hbare : ¬(t.element = .void ∧ t.dimensions ≠ 0) := by
      rintro ⟨hvoid, hne⟩
      rcases ht with ht | rfl
      · have := ht.element
        rw [hvoid] at this
        exact this
      · exact hne rfl
    simp only [read?, encode, List.append_assoc, hlead, hrest, List.length_replicate, if_neg hle,
      ElementType.read?_encode helement, if_neg hbare]

/-- Nothing is read off a text that begins with no type. -/
theorem read?_eq_none_iff {text : List Char} : read? text = none ↔ ¬Begins text := by
  rw [Option.eq_none_iff_forall_ne_some]
  constructor
  · rintro h ⟨t, rest, ht, e⟩
    exact h (t, rest) (read?_eq_some_iff.mpr ⟨ht, e⟩)
  · rintro h ⟨t, rest⟩ e
    exact h ⟨t, rest, read?_eq_some_iff.mp e⟩

/-- A type is read off its written form, whatever follows. -/
theorem read?_encode {t : FieldType} (h : IsResult t) (rest : List Char) :
    read? (t.encode ++ rest) = some (t, rest) :=
  read?_eq_some_iff.mpr ⟨h, rfl⟩

/-- A written form is not empty, and does not begin with a parenthesis. -/
theorem exists_encode_cons {t : FieldType} (rest : List Char) :
    ∃ c tail, t.encode ++ rest = c :: tail ∧ c ≠ ')' := by
  rcases t with ⟨_ | n, e⟩
  · cases e <;> exact ⟨_, _, rfl, by decide⟩
  · exact ⟨'[', _, rfl, by decide⟩

/-! ## Spellings -/

/-- The name of a class with dots for marks, its package included. -/
def dotted (name : List Char) : List Char := name.map fun c => if c = '/' ∨ c = '$' then '.' else c

/-- How source text spells the name of a class: with dots for marks, and without `java.lang` in front of a name that
has no further dot. -/
inductive SourceName (name : List Char) : (spelling : String) → Prop
  | short {simple : List Char} : dotted name = "java.lang.".toList ++ simple → '.' ∉ simple →
      SourceName name (String.ofList simple)
  | full : (∀ simple, dotted name = "java.lang.".toList ++ simple → '.' ∈ simple) →
      SourceName name (String.ofList (dotted name))

theorem sourceName_typeName (name : List Char) : SourceName name (typeName (String.ofList name)) := by
  simp only [typeName, String.toList_ofList, ← dotted.eq_1]
  split
  · rename_i simple hs
    have htext := Split.dropStart?_eq_some_iff.mp hs
    split
    · rename_i hdot
      refine .full fun simple' h => ?_
      rw [htext] at h
      rwa [← List.append_cancel_left h]
    · exact .short htext ‹_›
  · rename_i hnone
    refine .full fun simple h => ?_
    rw [Split.dropStart?_eq_some_iff.mpr h] at hnone
    cases hnone

/-- A class has one spelling. -/
theorem sourceName_iff {name : List Char} {spelling : String} :
    SourceName name spelling ↔ typeName (String.ofList name) = spelling := by
  constructor
  · intro h
    have htype := sourceName_typeName name
    generalize typeName (String.ofList name) = spelling' at htype
    cases htype with
    | short hname hdot =>
      cases h with
      | short hname' hdot' => rw [List.append_cancel_left (hname.symm.trans hname')]
      | full hlong => exact absurd (hlong _ hname) hdot
    | full hlong =>
      cases h with
      | short hname' hdot' => exact absurd (hlong _ hname') hdot'
      | full hlong' => rfl
  · rintro rfl
    exact sourceName_typeName name

/-- The package `java.lang` is left out of a spelling, so two names are spelled `void`. -/
theorem typeName_eq_void_iff (name : List Char) :
    typeName (String.ofList name) = "void" ↔
      dotted name = "void".toList ∨ dotted name = "java.lang.void".toList := by
  have hvoid : ∀ text : List Char, String.ofList text = "void" ↔ text = "void".toList := by
    intro text
    rw [← String.toList_inj, String.toList_ofList]
  rw [← sourceName_iff]
  constructor
  · intro h
    obtain ⟨spelling, hs, h⟩ : ∃ spelling, spelling = "void" ∧ SourceName name spelling := ⟨_, rfl, h⟩
    cases h with
    | short hname => exact Or.inr (by rw [hname, (hvoid _).mp hs]; rfl)
    | full => exact Or.inl ((hvoid _).mp hs)
  · rintro (h | h)
    · rw [← (hvoid _).mpr h]
      refine .full fun simple hlong => ?_
      rw [h] at hlong
      exact absurd (List.cons.inj hlong).1 (by decide)
    · have hname : dotted name = "java.lang.".toList ++ "void".toList := h.trans (by decide)
      have hshort := SourceName.short hname (by decide)
      rwa [String.ofList_toList] at hshort

/-- The types that source text spells `void`. -/
theorem spelling_eq_void_iff {t : FieldType} :
    t.spelling = "void" ↔ t.dimensions = 0 ∧ (t.element = .void ∨ ∃ name, t.element = .object name ∧
      (dotted name = "void".toList ∨ dotted name = "java.lang.void".toList)) := by
  rcases t with ⟨_ | n, e⟩
  · have hspelling : spelling ⟨0, e⟩ = e.spelling := by simp [spelling, String.join]
    rw [hspelling]
    cases e with
    | object name => simp [ElementType.spelling, typeName_eq_void_iff]
    | _ => simp [ElementType.spelling]
  · -- the brackets of an array type are in its spelling
    have hbracket : '[' ∈ (spelling ⟨n + 1, e⟩).toList := by
      simp [spelling, String.toList_join, List.replicate_succ]
    constructor
    · intro h
      rw [h] at hbracket
      exact absurd hbracket (by decide)
    · intro h
      exact absurd h.1 (Nat.succ_ne_zero n)

theorem isSpelledVoid_iff {t : FieldType} : t.isSpelledVoid = true ↔ t.spelling = "void" := beq_iff_eq

end FieldType

end SourceJar
