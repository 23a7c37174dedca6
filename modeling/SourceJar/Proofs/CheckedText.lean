import Mathlib
import SourceJar.ClassFile.Descriptor
import SourceJar.Text.Utf8

/-!
Texts cut at byte offsets, with every cut checked.

A text is searched for a mark and then cut where the mark was found. The search gives a byte offset, and a cut at an
offset inside a character, or past the end, ends the run with a failed check; so does a sum that leads past the end of
what it counts in, and a difference below zero. Here the names of a class and its descriptors are read in this way, and
no check ever fails: an offset that was found lies between two characters (`cut_before`, `cut_after`), and each read
comes to what is read without offsets.

- `packageName?_eq`, `simpleName_eq`: the names of a class.
- `fieldType_comesTo`, `methodType_comesTo`: descriptors.
-/

namespace SourceJar.Checked

/-! ## Checks -/

/-- A check that failed. -/
inductive Check where
  /-- A sum leads past the end of what it counts in. -/
  | sum (a b limit : Nat)
  /-- A difference is below zero. -/
  | difference (a b : Nat)
  /-- A slice does not lie within its row. -/
  | slice (start stop length : Nat)
  /-- A text has no boundary between characters at an offset. -/
  | boundary (offset : Nat) (text : List Char)
  /-- More items are taken off the front of a row than there are. -/
  | drain (count length : Nat)
  /-- A loop does not get on. -/
  | stuck (text : List Char)
  deriving DecidableEq

/-- A computation that turns its input down or comes to a value, unless a check fails. -/
abbrev Run := ExceptT FormatError (Except Check)

/-- A sum that must not lead past `limit`. As long as the limit fits a machine word, so does the sum. -/
def add (limit a b : Nat) : Except Check Nat := if a + b ≤ limit then .ok (a + b) else .error (.sum a b limit)

def sub (a b : Nat) : Except Check Nat := if b ≤ a then .ok (a - b) else .error (.difference a b)

/-- The bytes from `start` up to `stop`. -/
def slice (bytes : Bytes) (start stop : Nat) : Except Check Bytes :=
  if start ≤ stop ∧ stop ≤ bytes.length then .ok ((bytes.take stop).drop start)
  else .error (.slice start stop bytes.length)

/-- A row without its first items. -/
def drain {α : Type} (count : Nat) (items : List α) : Except Check (List α) :=
  if count ≤ items.length then .ok (items.drop count) else .error (.drain count items.length)

theorem add_eq {limit a b : Nat} (h : a + b ≤ limit) : add limit a b = .ok (a + b) := if_pos h

theorem sub_eq {a b : Nat} (h : b ≤ a) : sub a b = .ok (a - b) := if_pos h

theorem slice_eq {bytes : Bytes} {start stop : Nat} (h : start ≤ stop) (hs : stop ≤ bytes.length) :
    slice bytes start stop = .ok ((bytes.take stop).drop start) := if_pos ⟨h, hs⟩

theorem drain_eq {α : Type} {count : Nat} {items : List α} (h : count ≤ items.length) :
    drain count items = .ok (items.drop count) := if_pos h

/-! ## Runs in which no check fails -/

/-- No check fails, and the run comes to a result. -/
def ComesTo {α : Type} (m : Run α) (result : Except FormatError α) : Prop := m.run = .ok result

section ComesTo

variable {α β : Type}

theorem comesTo_pure (a : α) : ComesTo (pure a) (.ok a) := rfl

theorem comesTo_throw (e : FormatError) : ComesTo (throw e : Run α) (.error e) := rfl

/-- A run goes on with the value that its first part comes to. -/
theorem ComesTo.bind_ok {m : Run α} {f : α → Run β} {a : α} {result : Except FormatError β} (h : ComesTo m (.ok a))
    (hf : ComesTo (f a) result) : ComesTo (m >>= f) result := by
  rw [ComesTo, ExceptT.run_bind, h]
  exact hf

/-- A run is turned down if its first part is. -/
theorem ComesTo.bind_error {m : Run α} {f : α → Run β} {e : FormatError} (h : ComesTo m (.error e)) :
    ComesTo (m >>= f) (.error e) := by
  rw [ComesTo, ExceptT.run_bind, h]
  rfl

theorem ComesTo.bind {m : Run α} {f : α → Run β} {first : Except FormatError α} {next : α → Except FormatError β}
    (h : ComesTo m first) (hf : ∀ a, first = .ok a → ComesTo (f a) (next a)) : ComesTo (m >>= f) (first >>= next) := by
  cases first with
  | ok a => exact h.bind_ok (hf a rfl)
  | error e => exact h.bind_error

/-- A check that passes leaves the rest of the run. -/
theorem ComesTo.check {check : Except Check α} {a : α} {f : α → Run β} {result : Except FormatError β}
    (h : check = .ok a) (hf : ComesTo (f a) result) : ComesTo (liftM check >>= f) result := by
  rw [h]
  exact hf

/-- A run that may be turned down before it goes on. -/
theorem ComesTo.unless {p : Prop} [Decidable p] {e : FormatError} {f : Unit → Run α} {result : Except FormatError α}
    (hp : p → result = .error e) (hf : ¬p → ComesTo (f ()) result) :
    ComesTo (if p then throw e >>= f else f ()) result := by
  split
  · rw [hp ‹_›]
    rfl
  · exact hf ‹_›

end ComesTo

/-! ## Byte offsets -/

/-- How many bytes a text has. -/
def byteLength : List Char → Nat
  | [] => 0
  | c :: rest => c.utf8Size + byteLength rest

@[simp] theorem byteLength_append (front back : List Char) :
    byteLength (front ++ back) = byteLength front + byteLength back := by
  induction front with
  | nil => simp [byteLength]
  | cons c front ih => simp [byteLength, ih, Nat.add_assoc]

/-- They are the bytes that it is written with. -/
theorem byteLength_eq (text : String) : byteLength text.toList = Utf8.size text := by
  rw [Utf8.size, Utf8.encode]
  induction text.toList with
  | nil => rfl
  | cons c rest ih => simp [byteLength, ih]

/-- The byte offset of the first mark. -/
def findFirst? (mark : Char) : List Char → Option Nat
  | [] => none
  | c :: rest => if c = mark then some 0 else (findFirst? mark rest).map (c.utf8Size + ·)

/-- The byte offset of the last mark. -/
def findLast? (mark : Char) : List Char → Option Nat
  | [] => none
  | c :: rest =>
    match findLast? mark rest with
    | some offset => some (c.utf8Size + offset)
    | none => if c = mark then some 0 else none

/-- The parts before and after a byte offset, if there is a boundary between characters. -/
def cutAt? : (offset : Nat) → List Char → Option (List Char × List Char)
  | 0, text => some ([], text)
  | _ + 1, [] => none
  | offset + 1, c :: rest =>
    if c.utf8Size ≤ offset + 1 then
      (cutAt? (offset + 1 - c.utf8Size) rest).map fun (front, back) => (c :: front, back)
    else none
termination_by _ text => text.length

/-- A text cut at a byte offset. -/
def cut (offset : Nat) (text : List Char) : Except Check (List Char × List Char) :=
  match cutAt? offset text with
  | some parts => .ok parts
  | none => .error (.boundary offset text)

/-- There is a boundary exactly after each front part. -/
theorem cutAt?_eq_some_iff {offset : Nat} {text front back : List Char} :
    cutAt? offset text = some (front, back) ↔ text = front ++ back ∧ offset = byteLength front := by
  induction text generalizing offset front with
  | nil =>
    cases offset with
    | zero => cases front <;> simp [cutAt?, byteLength, eq_comm]
    | succ offset => cases front <;> simp [cutAt?, byteLength]
  | cons c rest ih =>
    have hpos := c.utf8Size_pos
    cases offset with
    | zero =>
      cases front with
      | nil => simp [cutAt?, byteLength, eq_comm]
      | cons d front =>
        have := d.utf8Size_pos
        simp only [cutAt?, byteLength, Option.some.injEq, Prod.mk.injEq]
        constructor
        · rintro ⟨h, -⟩
          cases h
        · rintro ⟨-, h⟩
          omega
    | succ offset =>
      rw [cutAt?]
      cases front with
      | nil => split <;> simp [byteLength]
      | cons d front =>
        simp only [byteLength, List.cons_append, List.cons.injEq]
        split
        · simp only [Option.map_eq_some_iff, Prod.exists, Prod.mk.injEq, List.cons.injEq]
          constructor
          · rintro ⟨front', back', h, ⟨rfl, rfl⟩, rfl⟩
            obtain ⟨e, ho⟩ := ih.mp h
            exact ⟨⟨rfl, e⟩, by omega⟩
          · rintro ⟨⟨rfl, e⟩, ho⟩
            exact ⟨front, back, ih.mpr ⟨e, by omega⟩, ⟨rfl, rfl⟩, rfl⟩
        · simp only [reduceCtorEq, false_iff]
          rintro ⟨⟨rfl, -⟩, ho⟩
          omega

theorem cut_eq (front back : List Char) : cut (byteLength front) (front ++ back) = .ok (front, back) := by
  rw [cut, cutAt?_eq_some_iff.mpr ⟨rfl, rfl⟩]

/-- A character of two bytes cannot be cut in the middle. -/
example : cut 2 ['a', 'ä'] = .error (.boundary 2 ['a', 'ä']) := by decide +kernel

/-- A text cannot be cut after its end. -/
example : cut 3 ['a', 'b'] = .error (.boundary 3 ['a', 'b']) := by decide +kernel

/-! ## Cuts at marks -/

theorem findFirst?_eq (mark : Char) (text : List Char) :
    findFirst? mark text = (Split.cutFirst? mark text).map fun (before, _) => byteLength before := by
  induction text with
  | nil => rfl
  | cons c rest ih =>
    rw [findFirst?, Split.cutFirst?, ih]
    split
    · rfl
    · cases Split.cutFirst? mark rest <;> rfl

theorem findLast?_eq (mark : Char) (text : List Char) :
    findLast? mark text = (Split.cutLast? mark text).map fun (before, _) => byteLength before := by
  induction text with
  | nil => rfl
  | cons c rest ih =>
    rw [findLast?, Split.cutLast?, ih]
    cases Split.cutLast? mark rest with
    | none =>
      simp only [Option.map_none]
      split <;> rfl
    | some parts => rfl

section Marks

variable {mark : Char} {before after : List Char}

/-- The offset after a mark of one byte lies within the text. -/
theorem add_mark (hm : mark.utf8Size = 1) :
    add (byteLength (before ++ mark :: after)) (byteLength before) 1 = .ok (byteLength (before ++ [mark])) := by
  simp only [byteLength_append, byteLength, hm]
  exact add_eq (by omega)

theorem cut_before : cut (byteLength before) (before ++ mark :: after) = .ok (before, mark :: after) := cut_eq _ _

theorem cut_after : cut (byteLength (before ++ [mark])) (before ++ mark :: after) = .ok (before ++ [mark], after) := by
  rw [List.append_cons before mark after]
  exact cut_eq _ _

end Marks

/-! ## The names of a class -/

/-- The package of a class: what stands before the last slash of its name. -/
def packageName? (name : String) : Except Check (Option String) :=
  match findLast? '/' name.toList with
  | none => return none
  | some offset => do
    let (package, _) ← cut offset name.toList
    return some (String.ofList (package.map fun c => if c = '/' then '.' else c))

/-- What stands after the last dollar sign, or everything. -/
def innerName (last : List Char) : Except Check String :=
  match findLast? '$' last with
  | some offset => do
    let (_, inner) ← cut (← add (byteLength last) offset 1) last
    return String.ofList inner
  | none => return String.ofList last

/-- The unqualified name of a class: what stands after the last slash of its name, and after the last dollar sign of
that. -/
def simpleName (name : String) : Except Check String := do
  let start ← match findLast? '/' name.toList with
    | some offset => add (byteLength name.toList) offset 1
    | none => pure 0
  let (_, last) ← cut start name.toList
  innerName last

theorem packageName?_eq (c : ClassFile) : packageName? c.thisClass = .ok c.packageName? := by
  rw [packageName?, ClassFile.packageName?, findLast?_eq]
  cases h : Split.cutLast? '/' c.thisClass.toList with
  | none => rfl
  | some parts =>
    obtain ⟨before, after⟩ := parts
    rw [(Split.cutLast?_eq_some_iff.mp h).2]
    simp only [Option.map_some, cut_before]
    rfl

theorem innerName_eq {last : List Char} {name : String}
    (hnone : Split.cutLast? '$' last = none → name = String.ofList last)
    (hsome : ∀ outer inner, Split.cutLast? '$' last = some (outer, inner) → name = String.ofList inner) :
    innerName last = .ok name := by
  rw [innerName, findLast?_eq]
  cases h : Split.cutLast? '$' last with
  | none =>
    rw [hnone h]
    rfl
  | some parts =>
    obtain ⟨outer, inner⟩ := parts
    rw [hsome outer inner h]
    obtain rfl := (Split.cutLast?_eq_some_iff.mp h).2
    simp only [Option.map_some, add_mark (show '$'.utf8Size = 1 from rfl)]
    change (cut _ _ >>= _) = _
    rw [cut_after]
    rfl

theorem simpleName_eq (c : ClassFile) : simpleName c.thisClass = .ok c.simpleName := by
  rw [simpleName, ClassFile.simpleName, findLast?_eq]
  cases h : Split.cutLast? '/' c.thisClass.toList with
  | none =>
    change (cut 0 _ >>= _) = _
    rw [show cut 0 c.thisClass.toList = .ok ([], c.thisClass.toList) from cut_eq [] _]
    exact innerName_eq (fun hnone => by simp only [hnone]) fun _ _ hsome => by simp only [hsome]
  | some parts =>
    obtain ⟨before, after⟩ := parts
    rw [(Split.cutLast?_eq_some_iff.mp h).2]
    simp only [Option.map_some, add_mark (show '/'.utf8Size = 1 from rfl)]
    change (cut _ _ >>= _) = _
    rw [cut_after]
    exact innerName_eq (fun hnone => by simp only [hnone]) fun _ _ hsome => by simp only [hsome]

/-! ## Descriptors -/

/-- Takes one element off the front of the text. Only the name of a class is found by its offset. -/
def element? (text : List Char) : Except Check (Option (ElementType × List Char)) :=
  match text with
  | 'L' :: rest =>
    match findFirst? ';' rest with
    | none => return none
    | some offset => do
      if offset = 0 then return none
      let (name, _) ← cut offset rest
      let (_, after) ← cut (← add (byteLength rest) offset 1) rest
      return some (.object name, after)
  | _ => return ElementType.read? text

/-- Takes one field type off the front of the text. The brackets are as many as the bytes that they take. -/
def fieldType (descriptor : List Char) : Run (FieldType × List Char) := do
  let text := descriptor.dropWhile (· == '[')
  let dimensions ← sub (byteLength descriptor) (byteLength text)
  if FieldType.maxDimensions < dimensions then throw (.malformedDescriptor (String.ofList descriptor))
  match ← element? text with
  | none => throw (.malformedDescriptor (String.ofList descriptor))
  | some (element, rest) =>
    if element = .void ∧ dimensions ≠ 0 then throw (.malformedDescriptor (String.ofList descriptor))
    return (⟨dimensions, element⟩, rest)

/-- Takes parameter types off the front of the text, up to the closing parenthesis. Each must take something off. -/
def parameterTypes (whole : List Char) : (text : List Char) → Run (List FieldType × List Char)
  | ')' :: rest => return ([], ')' :: rest)
  | [] => throw (.malformedDescriptor (String.ofList whole))
  | c :: tail => do
    let (parameter, rest) ← fieldType (c :: tail)
    if parameter.isSpelledVoid then throw (.malformedDescriptor (String.ofList whole))
    if _h : rest.length ≤ tail.length then
      let (parameters, after) ← parameterTypes whole rest
      return (parameter :: parameters, after)
    else throwThe Check (.stuck (c :: tail))
termination_by text => text.length

/-- Reads a whole method descriptor. -/
def methodType (descriptor : List Char) : Run MethodType :=
  match descriptor with
  | '(' :: text => do
    let (parameters, rest) ← parameterTypes descriptor text
    let (_, after) ← cut 1 rest
    let (result, trailing) ← fieldType after
    if !trailing.isEmpty then throw (.malformedDescriptor (String.ofList descriptor))
    return ⟨parameters, result⟩
  | _ => throw (.malformedDescriptor (String.ofList descriptor))

theorem element?_eq (text : List Char) : element? text = .ok (ElementType.read? text) := by
  unfold element?
  split
  · rename_i rest
    rw [findFirst?_eq, ElementType.read?]
    cases h : Split.cutFirst? ';' rest with
    | none => rfl
    | some parts =>
      obtain ⟨before, after⟩ := parts
      obtain rfl := (Split.cutFirst?_eq_some_iff.mp h).2
      simp only [Option.map_some]
      cases before with
      | nil => rfl
      | cons c before =>
        have hne : byteLength (c :: before) ≠ 0 := by
          have := c.utf8Size_pos
          simp only [byteLength]
          omega
        rw [if_neg hne, cut_before, add_mark (show ';'.utf8Size = 1 from rfl)]
        change (cut _ _ >>= _) = _
        rw [cut_after]
        rfl
  · rfl

/-- Each bracket takes one byte. -/
theorem byteLength_brackets (text : List Char) :
    byteLength (text.takeWhile (· == '[')) = (text.takeWhile (· == '[')).length := by
  induction text with
  | nil => rfl
  | cons c rest ih =>
    rw [List.takeWhile_cons]
    split
    · rename_i h
      rw [byteLength, ih, eq_of_beq h, List.length_cons, Nat.add_comm]
      rfl
    · rfl

theorem sub_brackets (text : List Char) : sub (byteLength text) (byteLength (text.dropWhile (· == '['))) =
    .ok (text.takeWhile (· == '[')).length := by
  have hsplit := congrArg byteLength (List.takeWhile_append_dropWhile (p := (· == '[')) (l := text))
  rw [byteLength_append, byteLength_brackets] at hsplit
  rw [sub_eq (by omega)]
  congr 1
  omega

theorem fieldType_comesTo (descriptor : List Char) : ComesTo (fieldType descriptor) (FieldType.read descriptor) := by
  refine .check (sub_brackets descriptor) (.unless (fun hmax => ?_) fun hmax => .check (element?_eq _) ?_)
  · rw [FieldType.read, FieldType.read?, if_pos hmax]
  · rw [FieldType.read, FieldType.read?, if_neg hmax]
    cases ElementType.read? (descriptor.dropWhile (· == '[')) with
    | none => exact comesTo_throw _
    | some found =>
      refine .unless (fun hvoid => ?_) fun hvoid => ?_
      · simp only [if_pos hvoid]
      · simp only [if_neg hvoid]
        exact comesTo_pure _

/-- A loop over the parameters comes to the closing parenthesis. -/
theorem parameterTypes_comesTo (whole text : List Char) : ComesTo (parameterTypes whole text)
    ((MethodType.readParameters whole text).map fun (parameters, after) => (parameters, ')' :: after)) := by
  have hnext : ∀ {text : List Char} {found : FieldType × List Char}, FieldType.read? text = some found →
      ComesTo (fieldType text) (.ok found) := by
    intro text found hread
    have h := fieldType_comesTo text
    rw [FieldType.read, hread] at h
    exact h
  fun_induction MethodType.readParameters whole text with
  | case1 =>
    rw [parameterTypes]
    exact comesTo_throw _
  | case2 =>
    rw [parameterTypes]
    exact comesTo_pure _
  | case3 c tail hc hread =>
    have hnone := fieldType_comesTo (c :: tail)
    rw [FieldType.read, hread] at hnone
    rw [parameterTypes]
    · exact hnone.bind_error
    · exact hc
  | case4 c tail hc parameter rest hread hvoid =>
    rw [parameterTypes]
    · exact (hnext hread).bind_ok (.unless (fun _ => rfl) fun h => absurd hvoid h)
    · exact hc
  | case5 c tail hc parameter rest hread hvoid parameters after hrest ih =>
    have hlength : rest.length ≤ tail.length := Nat.le_of_lt_succ (FieldType.length_read? hread)
    rw [parameterTypes]
    · refine (hnext hread).bind_ok (.unless (fun h => absurd h hvoid) fun _ => ?_)
      rw [dif_pos hlength]
      rw [hrest] at ih
      exact ih.bind_ok (comesTo_pure _)
    · exact hc
  | case6 c tail hc parameter rest hread hvoid e hrest ih =>
    have hlength : rest.length ≤ tail.length := Nat.le_of_lt_succ (FieldType.length_read? hread)
    rw [parameterTypes]
    · refine (hnext hread).bind_ok (.unless (fun h => absurd h hvoid) fun _ => ?_)
      rw [dif_pos hlength]
      rw [hrest] at ih
      exact ih.bind_error
    · exact hc

theorem methodType_comesTo (descriptor : List Char) : ComesTo (methodType descriptor) (MethodType.read descriptor) := by
  unfold methodType
  split
  · rename_i text
    have hparameters := parameterTypes_comesTo ('(' :: text) text
    simp only [MethodType.read]
    cases hread : MethodType.readParameters ('(' :: text) text with
    | error e =>
      rw [hread] at hparameters
      exact hparameters.bind_error
    | ok found =>
      obtain ⟨parameters, after⟩ := found
      rw [hread] at hparameters
      have hcut : cut 1 (')' :: after) = .ok ([')'], after) := cut_eq [')'] after
      refine hparameters.bind_ok (.check hcut ((fieldType_comesTo after).bind fun found _ => ?_))
      refine .unless (fun h => ?_) fun h => ?_
      · exact if_neg (by simpa using h)
      · rw [if_pos (by simpa using h)]
        exact comesTo_pure _
  · rename_i hnot
    unfold MethodType.read
    split
    · exact absurd rfl (hnot _)
    · exact comesTo_throw _

end SourceJar.Checked
