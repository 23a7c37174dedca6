import SourceJar.Proofs.Rendering

/-!
The comment above a skeleton.

The comment is put in front of a skeleton and changes nothing else. It names the class and its source file as they stand
in the class file, so what is a comment to a reader of the skeleton depends on these names: a name may hold the end of a
line, and then what follows it is a line of its own. A line is a comment if it is empty or begins with two slashes.

- `skeletonOf_comment`: a skeleton with the comment and one without it.
- `isComment_headerComment_iff`: the names for which all of the comment is one.
- `skeleton_headerComment`: class files with the comment and without it.
- `source_file_breaks_comment`: a source file whose name leaves the comment.
-/

namespace SourceJar.Java

/-! ## Lines -/

/-- A character that ends a line. -/
def endsLine (c : Char) : Bool := c == '\n' || c == '\r'

/-- The lines of a text: what stands between the ends of lines. -/
def linesOf (text : List Char) : List (List Char) := text.splitOnP endsLine

/-- A line that source text may have anywhere between its tokens. -/
def IsComment (line : List Char) : Prop := line = [] ∨ ['/', '/'] <+: line

/-- All lines of the text are comments. -/
def AllComments (text : List Char) : Prop := ∀ line ∈ linesOf text, IsComment line

/-- All lines of the text after its first one are comments. -/
def LaterComments (text : List Char) : Prop := ∀ line ∈ (linesOf text).tail, IsComment line

theorem linesOf_of_unbroken {text : List Char} (h : ∀ c ∈ text, endsLine c = false) : linesOf text = [text] :=
  List.splitOnP_eq_singleton h

theorem linesOf_append_cons (front back : List Char) {c : Char} (h : endsLine c = true) :
    linesOf (front ++ c :: back) = linesOf front ++ linesOf back :=
  List.splitOnP_append_cons front back h

/-- A text without ends of lines goes in front of the first line. -/
theorem linesOf_append {front : List Char} (h : ∀ c ∈ front, endsLine c = false) (text : List Char) :
    ∃ first later, linesOf text = first :: later ∧ linesOf (front ++ text) = (front ++ first) :: later := by
  induction front with
  | nil =>
    obtain ⟨first, later, hlines⟩ := List.exists_cons_of_ne_nil (List.splitOnP_ne_nil endsLine text)
    exact ⟨first, later, hlines, hlines⟩
  | cons c front ih =>
    obtain ⟨first, later, hlines, hfront⟩ := ih fun d hd => h d (List.mem_cons_of_mem c hd)
    have hc : ¬endsLine c = true := by simp [h c List.mem_cons_self]
    refine ⟨first, later, hlines, ?_⟩
    have hcons := List.splitOnP_cons_eq_if_modifyHead (p := endsLine) c (front ++ text)
    rw [if_neg hc] at hcons
    unfold linesOf at hfront ⊢
    rw [List.cons_append, hcons, hfront]
    rfl

/-- Of a text that begins with two slashes in its first line, the later lines decide. -/
theorem allComments_append_iff {front : List Char} (h : ∀ c ∈ front, endsLine c = false)
    (hslashes : ['/', '/'] <+: front) (text : List Char) : AllComments (front ++ text) ↔ LaterComments text := by
  obtain ⟨first, later, hlines, hfront⟩ := linesOf_append h text
  have hfirst : IsComment (front ++ first) := Or.inr (hslashes.trans (List.prefix_append front first))
  rw [AllComments, LaterComments, hfront, hlines, List.forall_mem_cons]
  exact and_iff_right hfirst

theorem allComments_append_cons (front back : List Char) {c : Char} (h : endsLine c = true) :
    AllComments (front ++ c :: back) ↔ AllComments front ∧ AllComments back := by
  unfold AllComments
  rw [linesOf_append_cons front back h]
  exact List.forall_mem_append

/-- The last line of a text is all of it, or stands after the last end of a line. -/
theorem exists_last_line (text : List Char) :
    (∀ c ∈ text, endsLine c = false) ∨
      ∃ front c last, text = front ++ c :: last ∧ endsLine c = true ∧ ∀ d ∈ last, endsLine d = false := by
  induction text with
  | nil => exact Or.inl (by simp)
  | cons c rest ih =>
    rcases ih with h | ⟨front, d, last, rfl, hd, hlast⟩
    · by_cases hc : endsLine c = true
      · exact Or.inr ⟨[], c, rest, rfl, hc, h⟩
      · refine Or.inl fun d hd => ?_
        rcases List.mem_cons.mp hd with rfl | hd
        · exact Bool.eq_false_iff.mpr hc
        · exact h d hd
    · exact Or.inr ⟨c :: front, d, last, rfl, hd, hlast⟩

/-- What follows a blank does not make a line a comment. -/
theorem isComment_append_blank (line rest : List Char) :
    IsComment (line ++ ' ' :: rest) ↔ IsComment (line ++ [' ']) := by
  rcases line with _ | ⟨a, _ | ⟨b, line⟩⟩
  · simp [IsComment, List.cons_prefix_cons]
  · simp [IsComment, List.cons_prefix_cons]
  · simp [IsComment, List.cons_prefix_cons]

/-- A last line, and what is written after it. -/
theorem linesOf_last {last rest : List Char} (hlast : ∀ c ∈ last, endsLine c = false)
    (hrest : ∀ c ∈ rest, endsLine c = false) : linesOf (last ++ ' ' :: rest) = [last ++ ' ' :: rest] := by
  apply linesOf_of_unbroken
  intro c hc
  rcases List.mem_append.mp hc with hc | hc
  · exact hlast c hc
  · rcases List.mem_cons.mp hc with rfl | hc
    · rfl
    · exact hrest c hc

/-- Of what follows a name in its last line, only the blank after it counts. -/
theorem laterComments_append_blank (name : List Char) {rest : List Char} (h : ∀ c ∈ rest, endsLine c = false) :
    LaterComments (name ++ ' ' :: rest) ↔ LaterComments (name ++ [' ']) := by
  have hnil : ∀ c ∈ ([] : List Char), endsLine c = false := by simp
  rcases exists_last_line name with hname | ⟨front, c, last, rfl, hc, hlast⟩
  · rw [LaterComments, LaterComments, linesOf_last hname h, linesOf_last hname hnil]
    exact Iff.rfl
  · obtain ⟨first, later, hfront⟩ := List.exists_cons_of_ne_nil (List.splitOnP_ne_nil endsLine front)
    have hsplit : ∀ rest : List Char, (∀ c ∈ rest, endsLine c = false) →
        linesOf (front ++ c :: last ++ ' ' :: rest) = first :: (later ++ [last ++ ' ' :: rest]) := by
      intro rest hrest
      rw [List.append_assoc, List.cons_append, linesOf_append_cons front _ hc, linesOf_last hlast hrest, linesOf,
        hfront]
      rfl
    rw [LaterComments, LaterComments, hsplit rest h, hsplit [] hnil]
    simp only [List.tail_cons, List.forall_mem_append, List.forall_mem_singleton, isComment_append_blank last rest]

/-- A text is unbroken if none of its characters ends a line. -/
theorem unbroken_of_all {text : List Char} (h : text.all (fun c => !endsLine c) = true) :
    ∀ c ∈ text, endsLine c = false := by
  intro c hc
  have hc' := List.all_eq_true.mp h c hc
  simpa using hc'

/-! ## The comment -/

/-- The versions of a class file as its comment gives them. -/
def versionText (c : ClassFile) : List Char :=
  "(class file version ".toList ++ Nat.toDigits 10 c.majorVersion.toNat ++ '.' ::
    Nat.toDigits 10 c.minorVersion.toNat ++ [')']

/-- A decimal number does not end a line. -/
theorem digits_unbroken (n : Nat) : ∀ d ∈ Nat.toDigits 10 n, endsLine d = false := by
  intro d hd
  have hdigit : d.isDigit = true := Nat.isDigit_of_mem_toDigits (by decide) (by decide) hd
  by_cases hn : d = '\n'
  · rw [hn] at hdigit
    exact absurd hdigit (by decide)
  by_cases hr : d = '\r'
  · rw [hr] at hdigit
    exact absurd hdigit (by decide)
  simp [endsLine, hn, hr]

theorem versionText_unbroken (c : ClassFile) : ∀ d ∈ versionText c, endsLine d = false := by
  have hwords : ∀ d ∈ "(class file version ".toList, endsLine d = false := unbroken_of_all (by decide)
  unfold versionText
  simp only [List.forall_mem_append, List.forall_mem_cons]
  exact ⟨⟨⟨hwords, digits_unbroken _⟩, rfl, digits_unbroken _⟩, rfl, by simp⟩

/-- The line of the comment that names the source file, if there is one. -/
def sourceLine (c : ClassFile) : List Char :=
  match c.sourceFile with
  | some name => "// Source file: ".toList ++ name.toList ++ ['\n']
  | none => []

theorem toList_headerComment (c : ClassFile) :
    (headerComment c).toList =
      "// Decompiled skeleton of ".toList ++ (c.thisClass.toList ++ ' ' :: versionText c) ++ '\n' ::
        (sourceLine c ++ ['\n']) := by
  have htext : ∀ text : String, toString text = text := fun _ => rfl
  unfold headerComment sourceLine versionText
  cases c.sourceFile <;> simp [htext, Nat.toList_repr]

/-- All lines of the comment are comments exactly if all lines but the first are in the name of the class, with the
blank that follows it, and in the name of the source file. -/
theorem isComment_headerComment_iff (c : ClassFile) :
    AllComments (headerComment c).toList ↔
      LaterComments (c.thisClass.toList ++ [' ']) ∧
        ∀ name, c.sourceFile = some name → LaterComments name.toList := by
  have hempty : AllComments [] := by simp [AllComments, linesOf, IsComment]
  have hsource : AllComments (sourceLine c ++ ['\n']) ↔
      ∀ name, c.sourceFile = some name → LaterComments name.toList := by
    rw [allComments_append_cons _ _ rfl, and_iff_left hempty, sourceLine]
    cases c.sourceFile with
    | none => simp [hempty]
    | some name =>
      simp only [Option.some.injEq, forall_eq']
      rw [allComments_append_cons _ _ rfl, and_iff_left hempty]
      exact allComments_append_iff (unbroken_of_all (by decide)) (by decide) _
  rw [toList_headerComment, allComments_append_cons _ _ rfl, hsource]
  rw [allComments_append_iff (unbroken_of_all (by decide)) (by decide),
    laterComments_append_blank _ (versionText_unbroken c)]

/-! ## Skeletons with and without the comment -/

theorem skeletonOf_comment (includePrivate : Bool) (c : ClassFile) :
    skeletonOf ⟨includePrivate, true⟩ c =
      (skeletonOf ⟨includePrivate, false⟩ c).map fun text => headerComment c ++ text := by
  have hbody : classBody ⟨includePrivate, true⟩ (Kind.ofFlags c.flags) c =
      classBody ⟨includePrivate, false⟩ (Kind.ofFlags c.flags) c := rfl
  rw [skeletonOf_eq, skeletonOf_eq, hbody]
  cases c.flags.isModule with
  | true => rfl
  | false =>
    cases c.flags.isSynthetic with
    | true => rfl
    | false =>
      cases classBody ⟨includePrivate, false⟩ (Kind.ofFlags c.flags) c with
      | error e => rfl
      | ok body =>
        have hnone : comment ⟨includePrivate, false⟩ c ++ declaration c body = declaration c body :=
          String.empty_append
        simp only [Bool.false_eq_true, if_false, Except.map, hnone]
        rfl

/-- With the comment a class file is turned down exactly if it is without it, for the same fault. Otherwise the comment
stands in front of the text without it, and all its lines are comments exactly if no line after the first of the two
names in it is anything else. -/
theorem skeleton_headerComment (includePrivate : Bool) (bytes : Bytes) :
    (∀ e, skeleton ⟨includePrivate, true⟩ bytes = .error e ↔
        skeleton ⟨includePrivate, false⟩ bytes = .error e) ∧
      ∀ text, skeleton ⟨includePrivate, false⟩ bytes = .ok text →
        ∃ c, ClassFile.parse bytes = .ok c ∧
          skeleton ⟨includePrivate, true⟩ bytes = .ok (headerComment c ++ text) ∧
          (AllComments (headerComment c).toList ↔
            LaterComments (c.thisClass.toList ++ [' ']) ∧
              ∀ name, c.sourceFile = some name → LaterComments name.toList) := by
  unfold skeleton
  cases ClassFile.parse bytes with
  | error e => simp [bind, Except.bind]
  | ok c =>
    have h := skeletonOf_comment includePrivate c
    simp only [bind, Except.bind]
    cases hplain : skeletonOf ⟨includePrivate, false⟩ c with
    | error e =>
      rw [hplain] at h
      rw [h]
      simp [Except.map]
    | ok text =>
      rw [hplain] at h
      rw [h]
      refine ⟨by simp [Except.map], ?_⟩
      intro text' htext
      cases htext
      exact ⟨c, rfl, rfl, isComment_headerComment_iff c⟩

/-- A class whose source file is named by two lines. -/
def twoLineClass : ClassFile := ⟨0, 52, ⟨0⟩, "A", none, [], [], [], some "A\nB"⟩

/-- The class file of that class. -/
def twoLineClassFile : Bytes :=
  [0xCA, 0xFE, 0xBA, 0xBE, 0, 0, 0, 52, 0, 5, 1, 0, 1, 65, 7, 0, 1, 1, 0, 10, 83, 111, 117, 114, 99, 101, 70, 105, 108,
    101, 1, 0, 3, 65, 10, 66, 0, 0, 0, 2, 0, 0, 0, 0, 0, 0, 0, 0, 0, 1, 0, 3, 0, 0, 0, 2, 0, 4]

/-- The second line of the name is no comment. -/
theorem source_file_breaks_comment :
    ∃ first second, skeleton ⟨true, true⟩ twoLineClassFile = .ok first ∧
      skeleton ⟨true, false⟩ twoLineClassFile = .ok second ∧
      ¬∃ h, first = h ++ second ∧ AllComments h.toList := by
  have hparse : ClassFile.parse twoLineClassFile = .ok twoLineClass := by
    unfold twoLineClassFile twoLineClass
    rfl
  have hplain : skeletonOf ⟨true, false⟩ twoLineClass = .ok "class A \x7b\n\x7d\n" := by
    rfl
  have hfirst : skeleton ⟨true, true⟩ twoLineClassFile =
      .ok (headerComment twoLineClass ++ "class A \x7b\n\x7d\n") := by
    rw [skeleton, hparse]
    change skeletonOf ⟨true, true⟩ twoLineClass = _
    rw [skeletonOf_comment, hplain]
    rfl
  have hsecond : skeleton ⟨true, false⟩ twoLineClassFile = .ok "class A \x7b\n\x7d\n" := by
    rw [skeleton, hparse]
    exact hplain
  refine ⟨_, _, hfirst, hsecond, ?_⟩
  rintro ⟨h, happend, hcomments⟩
  have htext := congrArg String.toList happend
  rw [String.toList_append, String.toList_append] at htext
  rw [← List.append_cancel_right htext, isComment_headerComment_iff] at hcomments
  have hline : IsComment ['B'] := hcomments.2 "A\nB" rfl ['B'] (by decide)
  simp [IsComment, List.cons_prefix_cons] at hline

end SourceJar.Java
