import SourceJar.Proofs.Rendering

/-!
Private members that are not shown.

Where private members are not wanted, a skeleton depends on nothing that they hold: not on how many there are or where
they stand, and a malformed descriptor of one does no harm. The constants of an enum are part of its declaration
whatever their flags say, so a private one is shown like any other; which fields these are depends on the kind of the
class and not on the members.

- `classBody_hidden`, `enumConstants_withoutHidden`: the parts of a skeleton that look at members.
- `skeletonOf_hidden`: a class is rendered without its private members as if it had none.
- `skeleton_hides_private`: two class files that differ in hidden members only have the same skeleton or the same fault.
-/

namespace SourceJar.Java

/-! ## Hidden members -/

/-- A private field is hidden, unless it is a constant of an enum. -/
def isHiddenField (kind : Kind) (f : Member) : Bool := f.flags.isPrivate && !(kind == .enum && f.flags.isEnum)

/-- The fields of a class that are not hidden. -/
def visibleFields (c : ClassFile) : List Member := c.fields.filter fun f => !isHiddenField (Kind.ofFlags c.flags) f

/-- The methods of a class that are not private. -/
def visibleMethods (c : ClassFile) : List Member := c.methods.filter fun m => !m.flags.isPrivate

/-- The class with its hidden members taken out. -/
def withoutHidden (c : ClassFile) : ClassFile :=
  { c with fields := visibleFields c, methods := visibleMethods c }

/-- The classes differ in hidden members only. -/
structure AgreeOnVisible (c c' : ClassFile) : Prop where
  besides : { c with fields := [], methods := [] } = { c' with fields := [], methods := [] }
  fields : visibleFields c = visibleFields c'
  methods : visibleMethods c = visibleMethods c'

theorem AgreeOnVisible.withoutHidden_eq {c c' : ClassFile} (h : AgreeOnVisible c c') :
    withoutHidden c = withoutHidden c' := by
  obtain ⟨hbesides, hfields, hmethods⟩ := h
  unfold withoutHidden
  rw [hfields, hmethods]
  cases c
  cases c'
  cases hbesides
  rfl

/-! ## What is shown -/

section

variable (header : Bool) (kind : Kind)

theorem showsField_hidden (f : Member) :
    showsField ⟨false, header⟩ kind f = (showsField ⟨true, header⟩ kind f && !isHiddenField kind f) := by
  simp only [showsField, isHiddenField]
  cases f.flags.isPrivate <;> cases kind == .enum && f.flags.isEnum <;> simp

theorem showsMethod_hidden (m : Member) :
    showsMethod ⟨false, header⟩ kind m = (showsMethod ⟨true, header⟩ kind m && !m.flags.isPrivate) := by
  simp only [showsMethod]
  cases m.flags.isPrivate <;> simp

/-- The members that are shown if private ones are not are those of the class without its hidden members. -/
theorem classBody_hidden (c : ClassFile) :
    classBody ⟨false, header⟩ (Kind.ofFlags c.flags) c =
      classBody ⟨true, header⟩ (Kind.ofFlags c.flags) (withoutHidden c) := by
  have hfields : c.fields.filter (showsField ⟨false, header⟩ (Kind.ofFlags c.flags)) =
      (visibleFields c).filter (showsField ⟨true, header⟩ (Kind.ofFlags c.flags)) := by
    rw [visibleFields, List.filter_filter]
    exact List.filter_congr fun f _ => showsField_hidden header _ f
  have hmethods : c.methods.filter (showsMethod ⟨false, header⟩ (Kind.ofFlags c.flags)) =
      (visibleMethods c).filter (showsMethod ⟨true, header⟩ (Kind.ofFlags c.flags)) := by
    rw [visibleMethods, List.filter_filter]
    exact List.filter_congr fun m _ => showsMethod_hidden header _ m
  unfold classBody
  rw [hfields, hmethods]
  rfl

/-- No constant of an enum is hidden. -/
theorem enumConstants_withoutHidden (c : ClassFile) :
    enumConstants (Kind.ofFlags c.flags) (withoutHidden c) = enumConstants (Kind.ofFlags c.flags) c := by
  have hconstants : Kind.ofFlags c.flags = .enum →
      (visibleFields c).filter (·.flags.isEnum) = c.fields.filter (·.flags.isEnum) := by
    intro hkind
    rw [visibleFields, List.filter_filter]
    refine List.filter_congr fun f _ => ?_
    rw [isHiddenField, hkind]
    cases f.flags.isEnum <;> simp
  unfold enumConstants
  split
  · rename_i hkind
    have h : (withoutHidden c).fields.filter (·.flags.isEnum) = c.fields.filter (·.flags.isEnum) := hconstants hkind
    rw [h]
  · rfl

end

theorem declaration_withoutHidden (c : ClassFile) (body : String) :
    declaration (withoutHidden c) body = declaration c body := by
  have h := enumConstants_withoutHidden c
  unfold declaration
  change packageLine c ++ classHeader (Kind.ofFlags c.flags) c ++
    enumConstants (Kind.ofFlags c.flags) (withoutHidden c) ++ body ++ "\x7d\n" = _
  rw [h]

/-- If private members are not wanted, a class is rendered as if it had none. -/
theorem skeletonOf_hidden (header : Bool) (c : ClassFile) :
    skeletonOf ⟨false, header⟩ c = skeletonOf ⟨true, header⟩ (withoutHidden c) := by
  have hbody := classBody_hidden header c
  rw [skeletonOf_eq, skeletonOf_eq]
  simp only [declaration_withoutHidden]
  rw [hbody]
  rfl

/-- If private members are not wanted, class files of classes that differ in hidden members only come to the same, be it
a text or a fault, and to what the class without these members comes to when private members are wanted. -/
theorem skeleton_hides_private (header : Bool) {bytes bytes' : Bytes} {c c' : ClassFile}
    (hparse : ClassFile.parse bytes = .ok c) (hparse' : ClassFile.parse bytes' = .ok c') (h : AgreeOnVisible c c') :
    skeleton ⟨false, header⟩ bytes = skeleton ⟨false, header⟩ bytes' ∧
      skeleton ⟨false, header⟩ bytes = skeletonOf ⟨true, header⟩ (withoutHidden c) := by
  have hskeleton : ∀ {bytes : Bytes} {c : ClassFile}, ClassFile.parse bytes = .ok c →
      skeleton ⟨false, header⟩ bytes = skeletonOf ⟨true, header⟩ (withoutHidden c) := by
    intro bytes c hparse
    rw [← skeletonOf_hidden, skeleton, hparse]
    rfl
  refine ⟨?_, hskeleton hparse⟩
  rw [hskeleton hparse, hskeleton hparse', h.withoutHidden_eq]

/-- An enum with a private constant and a private field whose descriptor is malformed, and the same enum without the
field. -/
theorem malformed_private_field_hidden :
    let start : Bytes :=
      [0xCA, 0xFE, 0xBA, 0xBE, 0, 0, 0, 52, 0, 6, 1, 0, 1, 69, 7, 0, 1, 1, 0, 1, 88, 1, 0, 3, 76, 69, 59, 1, 0, 1, 63,
        0x40, 0, 0, 2, 0, 0, 0, 0]
    let bytes : Bytes := start ++ [0, 2, 0x40, 2, 0, 3, 0, 4, 0, 0, 0, 2, 0, 5, 0, 5, 0, 0, 0, 0, 0, 0]
    let bytes' : Bytes := start ++ [0, 1, 0x40, 2, 0, 3, 0, 4, 0, 0, 0, 0, 0, 0]
    skeleton ⟨true, false⟩ bytes = .error (.malformedDescriptor "?") ∧
      skeleton ⟨false, false⟩ bytes = skeleton ⟨false, false⟩ bytes' ∧
      skeleton ⟨false, false⟩ bytes' = .ok "enum E \x7b\n\n    X;\n\x7d\n" := by
  intro start bytes bytes'
  have hparse : ClassFile.parse bytes =
      .ok ⟨0, 52, ⟨0x4000⟩, "E", none, [],
        [⟨⟨0x4002⟩, "X", "LE;", none, []⟩, ⟨⟨0x0002⟩, "?", "?", none, []⟩], [], none⟩ := by
    simp only [bytes, start]
    rfl
  have hparse' : ClassFile.parse bytes' =
      .ok ⟨0, 52, ⟨0x4000⟩, "E", none, [], [⟨⟨0x4002⟩, "X", "LE;", none, []⟩], [], none⟩ := by
    simp only [bytes', start]
    rfl
  refine ⟨?_, (skeleton_hides_private false hparse hparse' ⟨rfl, by decide, rfl⟩).1, ?_⟩
  · rw [skeleton, hparse]
    rfl
  · rw [skeleton, hparse']
    rfl

end SourceJar.Java
