import SourceJar.Java.Skeleton
import SourceJar.Proofs.MethodTypes

/-!
Which classes have a skeleton.

A skeleton is a header comment, if one is wanted, and a declaration that does not depend on it (`skeletonOf_eq`). A
class is turned down as a module or a synthetic class, or else for the descriptor of a member that is shown; what
members that are not shown hold makes no difference.

The types of fields and parameters must not be `void`, and this is looked up in their spelling. So a class whose
shown members mention a class named `void`, with no package or in `java.lang`, is turned down, although its descriptors
are well-formed (`skeleton_isOk_iff`).

- `members_isOk_iff`: a row of members can be declared exactly if each of them can.
- `skeleton_isOk_iff`: the classes that have a skeleton.
- `void_class_refused`: a class with a field of the class `void` has none.
-/

namespace SourceJar

/-! ## Classes that look like `void` -/

namespace FieldType

/-- A class that source text spells `void`. -/
def IsVoidClass (t : FieldType) : Prop :=
  t.dimensions = 0 ∧ ∃ name, t.element = .object name ∧
    (dotted name = "void".toList ∨ dotted name = "java.lang.void".toList)

/-- Of the types of values, such classes are the only ones that are spelled `void`. -/
theorem WellFormed.spelling_eq_void_iff {t : FieldType} (ht : t.WellFormed) :
    t.spelling = "void" ↔ t.IsVoidClass := by
  have hvoid : t.element ≠ .void := by
    intro e
    have h := ht.element
    rw [e] at h
    exact h
  rw [FieldType.spelling_eq_void_iff, IsVoidClass]
  constructor
  · rintro ⟨hzero, h | h⟩
    · exact absurd h hvoid
    · exact ⟨hzero, h⟩
  · rintro ⟨hzero, h⟩
    exact ⟨hzero, Or.inr h⟩

end FieldType

namespace Java

/-! ## The parts of a skeleton -/

/-- A skeleton without its header comment, given the members. -/
def declaration (c : ClassFile) (body : String) : String :=
  packageLine c ++ classHeader (Kind.ofFlags c.flags) c ++ enumConstants (Kind.ofFlags c.flags) c ++ body ++ "\x7d\n"

/-- The comment above a skeleton, if it is wanted. -/
def comment (o : Options) (c : ClassFile) : String := if o.headerComment then headerComment c else ""

/-- A skeleton is a comment and a declaration, unless the class or one of its members is turned down. -/
theorem skeletonOf_eq (o : Options) (c : ClassFile) :
    skeletonOf o c =
      if c.flags.isModule then .error .moduleDescriptor
      else if c.flags.isSynthetic then .error (.syntheticClass c.thisClass)
      else (classBody o (Kind.ofFlags c.flags) c).map fun body => comment o c ++ declaration c body := by
  unfold skeletonOf
  by_cases hm : c.flags.isModule = true
  · rw [if_pos hm, if_pos hm]
    rfl
  rw [if_neg hm, if_neg hm]
  by_cases hs : c.flags.isSynthetic = true
  · rw [if_pos hs, if_pos hs]
    rfl
  rw [if_neg hs, if_neg hs]
  cases hb : classBody o (Kind.ofFlags c.flags) c with
  | error e =>
    simp only [hb, bind, Except.bind, Except.map]
  | ok body =>
    simp only [hb, bind, Except.bind, pure, Except.pure, Except.map, comment, declaration, String.append_assoc]

/-- A row of members can be declared exactly if each of them can. -/
theorem members_isOk_iff (declare : Member → Except FormatError String) (shown : List Member) :
    (∃ text, members declare shown = .ok text) ↔ ∀ m ∈ shown, ∃ text, declare m = .ok text := by
  induction shown with
  | nil => simp [members]
  | cons first rest ih =>
    rw [List.forall_mem_cons, ← ih, members]
    cases declare first with
    | error e => simp [bind, Except.bind]
    | ok text => cases members declare rest <;> simp [bind, Except.bind, pure, Except.pure]

/-! ## Descriptors of members -/

/-- The type of a field is the one that its whole descriptor is the written form of. -/
theorem fieldType_eq_ok_iff {descriptor : String} {t : FieldType} :
    fieldType descriptor = .ok t ↔ t.WellFormed ∧ ¬t.IsVoidClass ∧ descriptor.toList = t.encode := by
  unfold fieldType FieldType.read
  constructor
  · intro h
    rcases hread : FieldType.read? descriptor.toList with _ | ⟨t', rest⟩ <;> rw [hread] at h
    · cases h
    · obtain ⟨hresult, htext⟩ := FieldType.read?_eq_some_iff.mp hread
      change (if rest.isEmpty && !t'.isSpelledVoid then _ else _) = _ at h
      split at h
      · rename_i hcheck
        cases h
        obtain ⟨hend, hspelled⟩ := Bool.and_eq_true_iff.mp hcheck
        rw [List.isEmpty_iff.mp hend, List.append_nil] at htext
        have hvoid : ¬t.spelling = "void" := by
          intro e
          rw [FieldType.isSpelledVoid_iff.mpr e] at hspelled
          cases hspelled
        rcases hresult with ht | rfl
        · exact ⟨ht, fun hclass => hvoid (ht.spelling_eq_void_iff.mpr hclass), htext⟩
        · exact (hvoid (FieldType.spelling_eq_void_iff.mpr ⟨rfl, Or.inl rfl⟩)).elim
      · cases h
  · rintro ⟨ht, hclass, htext⟩
    have hread : FieldType.read? descriptor.toList = some (t, []) :=
      FieldType.read?_eq_some_iff.mpr ⟨Or.inl ht, by rw [htext, List.append_nil]⟩
    have hspelled : t.isSpelledVoid = false := by
      rw [Bool.eq_false_iff]
      intro h
      exact hclass (ht.spelling_eq_void_iff.mp (FieldType.isSpelledVoid_iff.mp h))
    rw [hread]
    change (if ([] : List Char).isEmpty && !t.isSpelledVoid then _ else _) = _
    rw [hspelled]
    rfl

/-- A field can be declared exactly if its whole descriptor is a type that can be its type. -/
theorem field_isOk_iff (f : Member) :
    (∃ text, field f = .ok text) ↔
      ∃ t : FieldType, t.WellFormed ∧ ¬t.IsVoidClass ∧ f.descriptor.toList = t.encode := by
  have h : (∃ text, field f = .ok text) ↔ ∃ t, fieldType f.descriptor = .ok t := by
    unfold field
    cases fieldType f.descriptor <;> simp [bind, Except.bind, pure, Except.pure]
  rw [h]
  exact exists_congr fun t => fieldType_eq_ok_iff

/-- A method can be declared exactly if its whole descriptor has types that can be those of its parameters, and a
result. -/
theorem method_isOk_iff (c : ClassFile) (kind : Kind) (m : Member) :
    (∃ text, method c kind m = .ok text) ↔
      ∃ t : MethodType, (∀ p ∈ t.parameters, p.WellFormed ∧ ¬p.IsVoidClass) ∧ t.result.IsResult ∧
        m.descriptor.toList = t.encode := by
  have h : (∃ text, method c kind m = .ok text) ↔ ∃ t, MethodType.read m.descriptor.toList = .ok t := by
    unfold method
    cases MethodType.read m.descriptor.toList <;> simp [bind, Except.bind, pure, Except.pure]
  rw [h]
  refine exists_congr fun t => ?_
  rw [MethodType.read_eq_ok_iff]
  constructor
  · rintro ⟨ht, htext⟩
    refine ⟨fun p hp => ?_, ht.result, htext⟩
    have hparameter := ht.parameters p hp
    exact ⟨hparameter.wellFormed, fun hv => hparameter.notVoid (hparameter.wellFormed.spelling_eq_void_iff.mpr hv)⟩
  · rintro ⟨hparameters, hresult, htext⟩
    refine ⟨⟨fun p hp => ?_, hresult⟩, htext⟩
    obtain ⟨hform, hvoid⟩ := hparameters p hp
    exact ⟨hform, fun hs => hvoid (hform.spelling_eq_void_iff.mp hs)⟩

/-! ## Classes -/

/-- A class that is neither a module nor synthetic, whose shown members have whole descriptors of their kind. Of the
field types only those in `allowed` may stand for values. -/
structure Declarable (o : Options) (allowed : FieldType → Prop) (c : ClassFile) : Prop where
  notModule : c.flags.isModule = false
  notSynthetic : c.flags.isSynthetic = false
  fields : ∀ f ∈ c.fields, showsField o (Kind.ofFlags c.flags) f = true →
    ∃ t : FieldType, (t.WellFormed ∧ allowed t) ∧ f.descriptor.toList = t.encode
  methods : ∀ m ∈ c.methods, showsMethod o (Kind.ofFlags c.flags) m = true →
    ∃ t : MethodType, (∀ p ∈ t.parameters, p.WellFormed ∧ allowed p) ∧ t.result.IsResult ∧
      m.descriptor.toList = t.encode

theorem classBody_isOk_iff (o : Options) (kind : Kind) (c : ClassFile) :
    (∃ body, classBody o kind c = .ok body) ↔
      (∀ f ∈ c.fields, showsField o kind f = true → ∃ text, field f = .ok text) ∧
        ∀ m ∈ c.methods, showsMethod o kind m = true → ∃ text, method c kind m = .ok text := by
  have hfields := members_isOk_iff field (c.fields.filter (showsField o kind))
  have hmethods := members_isOk_iff (method c kind) (c.methods.filter (showsMethod o kind))
  simp only [List.mem_filter, and_imp] at hfields hmethods
  rw [← hfields, ← hmethods]
  unfold classBody
  cases members field (c.fields.filter (showsField o kind)) with
  | error e => simp [bind, Except.bind]
  | ok fields =>
    cases members (method c kind) (c.methods.filter (showsMethod o kind)) <;>
      simp [bind, Except.bind, pure, Except.pure]

theorem skeletonOf_isOk_iff (o : Options) (c : ClassFile) :
    (∃ text, skeletonOf o c = .ok text) ↔ Declarable o (fun t => ¬t.IsVoidClass) c := by
  have hbody : (∃ text, skeletonOf o c = .ok text) ↔ c.flags.isModule = false ∧ c.flags.isSynthetic = false ∧
      ∃ body, classBody o (Kind.ofFlags c.flags) c = .ok body := by
    rw [skeletonOf_eq]
    cases c.flags.isModule with
    | true => simp
    | false =>
      cases c.flags.isSynthetic with
      | true => simp
      | false => cases classBody o (Kind.ofFlags c.flags) c <;> simp [Except.map]
  rw [hbody, classBody_isOk_iff]
  simp only [field_isOk_iff, method_isOk_iff]
  constructor
  · rintro ⟨hmodule, hsynthetic, hfields, hmethods⟩
    refine ⟨hmodule, hsynthetic, fun f hf hshown => ?_, hmethods⟩
    obtain ⟨t, ht, hvoid, htext⟩ := hfields f hf hshown
    exact ⟨t, ⟨ht, hvoid⟩, htext⟩
  · rintro ⟨hmodule, hsynthetic, hfields, hmethods⟩
    refine ⟨hmodule, hsynthetic, fun f hf hshown => ?_, hmethods⟩
    obtain ⟨t, ⟨ht, hvoid⟩, htext⟩ := hfields f hf hshown
    exact ⟨t, ht, hvoid, htext⟩

/-- The class files that have a skeleton: those of a class that is neither a module nor synthetic, and whose shown
members have whole descriptors of their kind, with no field or parameter of a class that is spelled `void`. -/
theorem skeleton_isOk_iff (o : Options) (bytes : Bytes) :
    (∃ text, skeleton o bytes = .ok text) ↔
      ∃ c, ClassFile.parse bytes = .ok c ∧ Declarable o (fun t => ¬t.IsVoidClass) c := by
  unfold skeleton
  cases ClassFile.parse bytes with
  | error e => simp [bind, Except.bind]
  | ok c =>
    have h := skeletonOf_isOk_iff o c
    simpa [bind, Except.bind] using h

/-- A class file of a class with a field of the class `void`. -/
def voidField : Bytes :=
  [0xCA, 0xFE, 0xBA, 0xBE, 0, 0, 0, 52, 0, 5, 1, 0, 1, 65, 7, 0, 1, 1, 0, 1, 102, 1, 0, 6, 76, 118, 111, 105, 100, 59,
    0, 0, 0, 2, 0, 0, 0, 0, 0, 1, 0, 0, 0, 3, 0, 4, 0, 0, 0, 0, 0, 0]

/-- The descriptor of the field is well-formed, and the class is turned down for it. -/
theorem void_class_refused :
    (∃ c, ClassFile.parse voidField = .ok c ∧ Declarable {} (fun _ => True) c) ∧
      ¬∃ text, skeleton {} voidField = .ok text := by
  have hparse : ClassFile.parse voidField =
      .ok ⟨0, 52, ⟨0⟩, "A", none, [], [⟨⟨0⟩, "f", "Lvoid;", none, []⟩], [], none⟩ := by
    unfold voidField
    rfl
  have hrefused : skeleton {} voidField = .error (.malformedDescriptor "Lvoid;") := by
    unfold voidField
    rfl
  constructor
  · refine ⟨_, hparse, rfl, rfl, ?_, by simp⟩
    intro f hf _
    obtain rfl := List.mem_singleton.mp hf
    exact ⟨⟨0, .object "void".toList⟩, ⟨⟨by decide, by decide, by decide⟩, trivial⟩, by decide⟩
  · rw [hrefused]
    simp

end Java

end SourceJar
