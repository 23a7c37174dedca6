import SourceJar.Proofs.CheckedText
import SourceJar.Proofs.ClassReading

/-!
Class files read with a cursor, with every step checked.

A cursor is a position in the input. Numbers and slices are taken from the position on, and each moves it forward: that
it stays within the input, that a slice lies within the input, and that no difference is below zero is checked each time.
A reader without a cursor takes bytes off the front instead. `Follows` says that a reader with a cursor comes to what
such a reader comes to, fails no check, and moves the cursor over the bytes that the other takes off; this is shown for
each way to build a reader and carried through the readers of a class file, up to `parse_comesTo`.
-/

namespace SourceJar.Checked

open ByteReader

/-- A position in the input. -/
structure Cursor where
  input : Bytes
  position : Nat

/-- What is still to be read. -/
def Cursor.left (c : Cursor) : Bytes := c.input.drop c.position

/-- A step that moves a cursor. -/
abbrev CursorReader := StateT Cursor Run

/-! ## Reading bytes -/

/-- Moves the cursor forward. -/
def advance (count : Nat) : CursorReader Unit := do
  let c ← get
  set { c with position := ← add c.input.length c.position count }

/-- How many bytes are still to be read. -/
def remaining : CursorReader Nat := do
  let c ← get
  return c.input.length - c.position

/-- Copies the next bytes out of the input. -/
def next (count : Nat) : CursorReader Bytes := do
  let c ← get
  let rest ← slice c.input (min c.position c.input.length) c.input.length
  if rest.length < count then throw .truncated
  let bytes ← slice rest 0 count
  advance count
  return bytes

/-- The number that the next bytes spell. -/
def number {α : Type} (count : Nat) (value : ByteReader α) : CursorReader α := do
  match value.run (← next count) with
  | .ok (v, _) => return v
  | .error e => throw e

/-- Passes over `count` bytes. What they are is not looked at; they are only kept where the entry that they belong to
keeps them. -/
def skip (count : Nat) : CursorReader Bytes := do
  if (← remaining) < count then throw .truncated
  let c ← get
  advance count
  return c.left.take count

/-- A slice of the input with the next `count` bytes. -/
def take (count : Nat) : CursorReader Bytes := do
  if (← remaining) < count then throw .truncated
  let start := (← get).position
  advance count
  let c ← get
  slice c.input start (← add c.input.length start count)

/-- Runs a step a number of times and collects what it yields. -/
def times {α : Type} : Nat → CursorReader α → CursorReader (List α)
  | 0, _ => pure []
  | n + 1, step => do
    let first ← step
    let rest ← times n step
    return first :: rest

/-- Goes on with a lookup that may fail. -/
def found {α : Type} (result : Except FormatError α) : CursorReader α :=
  match result with
  | .ok v => return v
  | .error e => throw e

/-! ## Reading a class file -/

def byte : CursorReader UInt8 := number 1 ByteReader.byte

def word16 : CursorReader UInt16 := number 2 ByteReader.word16

def word32 : CursorReader UInt32 := number 4 ByteReader.word32

def word64 : CursorReader UInt64 := number 8 ByteReader.word64

def readConstant : CursorReader Constant := do
  let tag ← byte
  match tag.toNat with
  | 1 => return .utf8 (← take (← word16).toNat)
  | 3 => return .integer (← word32)
  | 4 => return .float (← word32)
  | 5 => return .long (← word64)
  | 6 => return .double (← word64)
  | 7 => return .classRef (← word16)
  | 8 => return .string (← word16)
  | 9 | 10 | 11 | 12 | 17 | 18 => return .other tag (← skip 4)
  | 15 => return .other tag (← skip 3)
  | 16 | 19 | 20 => return .other tag (← skip 2)
  | _ => throw (.unknownTag tag)

def readSlots : Nat → CursorReader (List Constant)
  | 0 => pure []
  | missing + 1 => do
    let constant ← readConstant
    if constant.isWide then
      match missing with
      | 0 => return [constant, .unusable]
      | missing + 1 => return constant :: .unusable :: (← readSlots missing)
    else return constant :: (← readSlots missing)

def readPool : CursorReader ConstantPool := do
  let count ← word16
  let slots ← readSlots (count.toNat - 1)
  return (Constant.unusable :: slots).toArray

section

variable (pool : ConstantPool)

/-- Reads the class names of an `Exceptions` attribute. How many bytes they took is how far the cursor has moved, in 32
bits for the difference to the length. -/
def readExceptions (length : Nat) : CursorReader (List String) := do
  let start := (← get).position
  let number ← word16
  let names ← times number.toNat do found (pool.className (← word16))
  let consumed ← sub (← get).position start
  if length < consumed then throw .truncated
  let _ ← skip (← sub length (consumed % 2 ^ 32))
  return names

def readAttribute (attributes : ClassFile.Attributes) : CursorReader ClassFile.Attributes := do
  let name ← found (pool.utf8 (← word16))
  let length := (← word32).toNat
  if name = "ConstantValue" ∧ length = 2 then
    return { attributes with constant := some (← found (pool.value (← word16))) }
  else if name = "Exceptions" then
    return { attributes with exceptions := attributes.exceptions ++ (← readExceptions pool length) }
  else
    let _ ← skip length
    return attributes

def readAttributes : Nat → ClassFile.Attributes → CursorReader ClassFile.Attributes
  | 0, attributes => pure attributes
  | n + 1, attributes => do readAttributes n (← readAttribute pool attributes)

def readMember : CursorReader Member := do
  let flags ← word16
  let name ← found (pool.utf8 (← word16))
  let descriptor ← found (pool.utf8 (← word16))
  let attributes ← readAttributes pool (← word16).toNat {}
  return {
    flags := ⟨flags⟩
    name
    descriptor
    constant := attributes.constant
    exceptions := attributes.exceptions }

def readClassAttribute (source : Option String) : CursorReader (Option String) := do
  let name ← found (pool.utf8 (← word16))
  let length := (← word32).toNat
  if name = "SourceFile" ∧ length = 2 then
    return some (← found (pool.utf8 (← word16)))
  else
    let _ ← skip length
    return source

def readClassAttributes : Nat → Option String → CursorReader (Option String)
  | 0, source => pure source
  | n + 1, source => do readClassAttributes n (← readClassAttribute pool source)

def readSuperClass : CursorReader (Option String) := do
  let index ← word16
  if index = 0 then return none else return some (← found (pool.className index))

end

def read : CursorReader ClassFile := do
  let start ← word32
  if start ≠ ClassFile.magic then throw (.badMagic start)
  let minorVersion ← word16
  let majorVersion ← word16
  let pool ← readPool
  let flags ← word16
  let thisClass ← found (pool.className (← word16))
  let superClass ← readSuperClass pool
  let interfaces ← times (← word16).toNat do found (pool.className (← word16))
  let fields ← times (← word16).toNat (readMember pool)
  let methods ← times (← word16).toNat (readMember pool)
  let sourceFile ← readClassAttributes pool (← word16).toNat none
  return {
    minorVersion
    majorVersion
    flags := ⟨flags⟩
    thisClass
    superClass
    interfaces
    fields
    methods
    sourceFile }

/-- The declaration in a class file, given its bytes. -/
def parse (bytes : Bytes) : Run ClassFile := do
  let (c, _) ← read.run ⟨bytes, 0⟩
  return c

/-! ## Readers that follow others -/

/-- The position lies within the input, or at its end. -/
def Cursor.Inside (c : Cursor) : Prop := c.position ≤ c.input.length

/-- One cursor comes to another by moving forward within the input. -/
structure Cursor.Forward (c c' : Cursor) : Prop where
  input_eq : c'.input = c.input
  le : c.position ≤ c'.position
  inside : c'.Inside

/-- No check fails, and the cursor moves over the bytes that the plain reader takes off the front, if it does not turn
them down. -/
def Follows {α : Type} (r : CursorReader α) (plain : ByteReader α) : Prop :=
  ∀ c : Cursor, c.Inside → ∃ result : Except FormatError (α × Cursor), ComesTo (r.run c) result ∧
    plain.run c.left = result.map (fun (v, c') => (v, c'.left)) ∧ ∀ v c', result = .ok (v, c') → c.Forward c'

section Follows

variable {α β : Type}

theorem Cursor.Inside.forward {c : Cursor} (h : c.Inside) : c.Forward c := ⟨rfl, Nat.le_refl _, h⟩

theorem Cursor.Forward.trans {c c' c'' : Cursor} (h : c.Forward c') (h' : c'.Forward c'') : c.Forward c'' :=
  ⟨h'.input_eq.trans h.input_eq, h.le.trans h'.le, h'.inside⟩

theorem follows_pure (v : α) : Follows (pure v) (pure v) := fun c hc =>
  ⟨.ok (v, c), rfl, rfl, fun v' c' h => by cases h; exact hc.forward⟩

theorem follows_throw (e : FormatError) : Follows (throw e : CursorReader α) (throw e) := fun _ _ =>
  ⟨.error e, rfl, rfl, fun _ _ h => by cases h⟩

theorem follows_found (result : Except FormatError α) : Follows (found result) (liftM result) := by
  cases result with
  | ok v => exact follows_pure v
  | error e => exact follows_throw e

theorem Follows.bind {r : CursorReader α} {plain : ByteReader α} {f : α → CursorReader β} {g : α → ByteReader β}
    (h : Follows r plain) (hf : ∀ v, Follows (f v) (g v)) : Follows (r >>= f) (plain >>= g) := by
  intro c hc
  obtain ⟨result, hr, hplain, hforward⟩ := h c hc
  rw [StateT.run_bind, StateT.run_bind, hplain]
  cases result with
  | error e => exact ⟨.error e, hr.bind_error, rfl, fun _ _ h => by cases h⟩
  | ok found =>
    obtain ⟨v, c'⟩ := found
    have hc' := hforward v c' rfl
    obtain ⟨result, hr', hplain', hforward'⟩ := hf v c' hc'.inside
    exact ⟨result, hr.bind_ok hr', hplain', fun w c'' e => hc'.trans (hforward' w c'' e)⟩

theorem Follows.ite {p : Prop} [Decidable p] {r r' : CursorReader α} {plain plain' : ByteReader α}
    (h : Follows r plain) (h' : Follows r' plain') : Follows (if p then r else r') (if p then plain else plain') := by
  split
  · exact h
  · exact h'

/-- A reader that may turn the input down before it goes on. -/
theorem Follows.unless {p : Prop} [Decidable p] {e : FormatError} {f : Unit → CursorReader α} {g : Unit → ByteReader α}
    (h : Follows (f ()) (g ())) : Follows (if p then throw e >>= f else f ()) (if p then throw e >>= g else g ()) :=
  .ite ((follows_throw e).bind fun _ => h) h

end Follows

/-! ## Moving forward -/

section Moving

variable {α β : Type} {c : Cursor}

theorem run_get (f : Cursor → CursorReader β) : (get >>= f).run c = (f c).run c := rfl

theorem run_check {check : Except Check α} {a : α} (h : check = .ok a) (f : α → CursorReader β) :
    (liftM check >>= f).run c = (f a).run c := by
  rw [h]
  rfl

/-- What taking the next `count` bytes comes to. -/
def Cursor.taken (c : Cursor) (count : Nat) : Except FormatError (Bytes × Cursor) :=
  if c.left.length < count then .error .truncated
  else .ok (c.left.take count, { c with position := c.position + count })

theorem Cursor.length_left (c : Cursor) : c.left.length = c.input.length - c.position := List.length_drop

theorem add_position {count : Nat} (hc : c.Inside) (h : ¬c.left.length < count) :
    add c.input.length c.position count = .ok (c.position + count) := add_eq (by
  rw [Cursor.length_left] at h
  have : c.position ≤ c.input.length := hc
  omega)

theorem run_remaining (f : Nat → CursorReader β) : (remaining >>= f).run c = (f c.left.length).run c := by
  rw [Cursor.length_left]
  rfl

theorem run_advance {count : Nat} (hc : c.Inside) (h : ¬c.left.length < count) (f : Unit → CursorReader β) :
    (advance count >>= f).run c = (f ()).run { c with position := c.position + count } := by
  rw [advance, bind_assoc, run_get, bind_assoc, run_check (add_position hc h)]
  rfl

theorem next_comesTo (hc : c.Inside) (count : Nat) : ComesTo ((next count).run c) (c.taken count) := by
  have hslice : slice c.input (min c.position c.input.length) c.input.length = .ok c.left := by
    rw [slice_eq (Nat.min_le_right _ _) (Nat.le_refl _), Nat.min_eq_left hc, List.take_length]
    rfl
  rw [next, run_get, run_check hslice, Cursor.taken]
  split
  · rfl
  · rename_i h
    have hbytes : slice c.left 0 count = .ok (c.left.take count) := slice_eq (Nat.zero_le _) (Nat.not_lt.mp h)
    rw [run_check hbytes, run_advance hc h]
    rfl

theorem skip_comesTo (hc : c.Inside) (count : Nat) : ComesTo ((skip count).run c) (c.taken count) := by
  rw [skip, run_remaining, Cursor.taken]
  split
  · rfl
  · rename_i h
    rw [run_get, run_advance hc h]
    rfl

theorem take_comesTo (hc : c.Inside) (count : Nat) : ComesTo ((take count).run c) (c.taken count) := by
  rw [take, run_remaining, Cursor.taken]
  split
  · rfl
  · rename_i h
    have hslice : slice c.input c.position (c.position + count) = .ok (c.left.take count) := by
      rw [Cursor.length_left] at h
      have : c.position ≤ c.input.length := hc
      rw [slice_eq (Nat.le_add_right _ _) (by omega), List.drop_take, Nat.add_sub_cancel_left]
      rfl
    rw [run_get, run_advance hc h, run_get, run_check (add_position hc h)]
    simp only [hslice]
    rfl

theorem Cursor.forward_of_taken {count : Nat} (hc : c.Inside) (h : ¬c.left.length < count) :
    c.Forward { c with position := c.position + count } where
  input_eq := rfl
  le := Nat.le_add_right _ _
  inside := by
    rw [Cursor.length_left] at h
    have : c.position ≤ c.input.length := hc
    show c.position + count ≤ c.input.length
    omega

theorem Cursor.left_taken (c : Cursor) (count : Nat) :
    Cursor.left { c with position := c.position + count } = c.left.drop count := List.drop_drop.symm

/-- The bytes that were taken are those that a plain reader takes off the front. -/
theorem follows_of_taken {r : CursorReader Bytes} {count : Nat}
    (h : ∀ {c : Cursor}, c.Inside → ComesTo (r.run c) (c.taken count)) : Follows r (ByteReader.take count) := by
  intro c hc
  have hr := h hc
  rw [Cursor.taken] at hr
  have hplain : (ByteReader.take count).run c.left =
      if count ≤ c.left.length then .ok (c.left.take count, c.left.drop count) else .error .truncated := rfl
  by_cases hshort : c.left.length < count
  · rw [if_pos hshort] at hr
    rw [if_neg (Nat.not_le.mpr hshort)] at hplain
    exact ⟨_, hr, hplain, fun _ _ e => by cases e⟩
  · rw [if_neg hshort] at hr
    rw [if_pos (Nat.not_lt.mp hshort), ← Cursor.left_taken] at hplain
    exact ⟨_, hr, hplain, fun _ _ e => by cases e; exact Cursor.forward_of_taken hc hshort⟩

theorem follows_take (count : Nat) : Follows (take count) (ByteReader.take count) := follows_of_taken (take_comesTo · _)

/-- Bytes that are passed over are taken off the front, if they are kept. -/
theorem follows_skip (count : Nat) : Follows (skip count) (ByteReader.take count) := follows_of_taken (skip_comesTo · _)

/-- Bytes that are passed over, and not kept. -/
theorem Follows.skip {r : CursorReader β} {plain : ByteReader β} (h : Follows r plain) (count : Nat) :
    Follows (Checked.skip count >>= fun _ => r) (ByteReader.skip count >>= fun _ => plain) := by
  rw [ByteReader.skip, bind_assoc]
  simp only [pure_bind]
  exact (follows_skip count).bind fun _ => h

/-- A plain reader takes `count` bytes for a number, whatever they are, and there is no number in fewer bytes. -/
structure Spells {α : Type} (count : Nat) (value : ByteReader α) : Prop where
  short : ∀ {bytes : Bytes}, bytes.length < count → value.run bytes = .error .truncated
  enough : ∀ {front : Bytes}, front.length = count → ∃ v, ∀ more, value.run (front ++ more) = .ok (v, more)

theorem follows_number {value : ByteReader α} {count : Nat} (h : Spells count value) :
    Follows (number count value) value := by
  intro c hc
  have hnext := next_comesTo hc count
  rw [Cursor.taken] at hnext
  by_cases hshort : c.left.length < count
  · rw [if_pos hshort] at hnext
    exact ⟨.error .truncated, hnext.bind_error, h.short hshort, fun _ _ e => by cases e⟩
  · rw [if_neg hshort] at hnext
    obtain ⟨v, hvalue⟩ := h.enough (List.length_take_of_le (Nat.not_lt.mp hshort))
    have hnumber := hvalue []
    have hplain := hvalue (c.left.drop count)
    rw [List.append_nil] at hnumber
    rw [List.take_append_drop, ← Cursor.left_taken] at hplain
    refine ⟨.ok (v, _), hnext.bind_ok ?_, hplain, fun _ _ e => ?_⟩
    · simp only [hnumber]
      rfl
    · cases e
      exact Cursor.forward_of_taken hc hshort

theorem spells_byte : Spells 1 ByteReader.byte where
  short {bytes} h := by
    rw [List.eq_nil_of_length_eq_zero (Nat.lt_one_iff.mp h)]
    rfl
  enough {front} h := by
    obtain ⟨b, rfl⟩ := List.length_eq_one_iff.mp h
    exact ⟨b, fun _ => rfl⟩

/-- Two numbers one after another are read as one. -/
theorem Spells.both {value : ByteReader α} {count : Nat} (h : Spells count value) (join : α → α → β) :
    Spells (count + count) (do let high ← value; let low ← value; return join high low) where
  short {bytes} hb := by
    rw [StateT.run_bind]
    by_cases hshort : bytes.length < count
    · rw [h.short hshort]
      rfl
    · obtain ⟨high, hhigh⟩ := h.enough (List.length_take_of_le (Nat.not_lt.mp hshort))
      have hbytes := hhigh (bytes.drop count)
      rw [List.take_append_drop] at hbytes
      have hrest : (bytes.drop count).length < count := by
        rw [List.length_drop]
        omega
      rw [hbytes]
      change (StateT.run value (bytes.drop count) >>= _) = _
      rw [h.short hrest]
      rfl
  enough {front} hf := by
    have hfront : (front.take count).length = count := List.length_take_of_le (by omega)
    have hback : (front.drop count).length = count := by
      rw [List.length_drop]
      omega
    obtain ⟨high, hhigh⟩ := h.enough hfront
    obtain ⟨low, hlow⟩ := h.enough hback
    refine ⟨join high low, fun more => ?_⟩
    rw [StateT.run_bind, ← List.take_append_drop count front, List.append_assoc, hhigh]
    change (StateT.run value (front.drop count ++ more) >>= _) = _
    rw [hlow]
    rfl

theorem spells_word16 : Spells 2 ByteReader.word16 := by
  rw [word16_eq]
  exact spells_byte.both fun a b => a.toUInt16 <<< 8 ||| b.toUInt16

theorem spells_word32 : Spells 4 ByteReader.word32 := spells_word16.both _

theorem spells_word64 : Spells 8 ByteReader.word64 := spells_word32.both _

theorem follows_byte : Follows byte ByteReader.byte := follows_number spells_byte

theorem follows_word16 : Follows word16 ByteReader.word16 := follows_number spells_word16

theorem follows_word32 : Follows word32 ByteReader.word32 := follows_number spells_word32

theorem follows_word64 : Follows word64 ByteReader.word64 := follows_number spells_word64

theorem follows_times {step : CursorReader β} {plain : ByteReader β} (h : Follows step plain) (n : Nat) :
    Follows (times n step) (ByteReader.times n plain) := by
  induction n with
  | zero => exact follows_pure _
  | succ n ih => exact h.bind fun _ => ih.bind fun _ => follows_pure _

/-- A step that is taken a number of times, each with what the one before has found. -/
theorem follows_loop {step : β → CursorReader β} {plain : β → ByteReader β} {loop : Nat → β → CursorReader β}
    {plainLoop : Nat → β → ByteReader β} (h : ∀ v, Follows (step v) (plain v)) (hzero : ∀ v, loop 0 v = pure v)
    (hzero' : ∀ v, plainLoop 0 v = pure v) (hsucc : ∀ n v, loop (n + 1) v = step v >>= loop n)
    (hsucc' : ∀ n v, plainLoop (n + 1) v = plain v >>= plainLoop n) (n : Nat) (v : β) :
    Follows (loop n v) (plainLoop n v) := by
  induction n generalizing v with
  | zero =>
    rw [hzero, hzero']
    exact follows_pure v
  | succ n ih =>
    rw [hsucc, hsucc']
    exact (h v).bind ih

/-- How far the cursor has moved is how many bytes were taken off the front. -/
theorem Follows.measured {r : CursorReader α} {plain : ByteReader α} (h : Follows r plain) (used : α → Nat)
    (hused : ∀ {bytes rest : Bytes} {v : α}, Reads plain bytes v rest → bytes.length = used v + rest.length)
    {f : α → Nat → CursorReader β} {g : α → ByteReader β} (hf : ∀ v n, n = used v → Follows (f v n) (g v)) :
    Follows (do
      let start := (← get).position
      let v ← r
      let consumed ← sub (← get).position start
      f v consumed) (plain >>= g) := by
  intro c hc
  obtain ⟨first, hfirst, hplain, hforward⟩ := h c hc
  rw [show (plain >>= g).run c.left = (plain.run c.left >>= fun p => (g p.1).run p.2) from rfl, hplain]
  cases first with
  | error e => exact ⟨.error e, hfirst.bind_error, rfl, fun _ _ h => by cases h⟩
  | ok found =>
    obtain ⟨v, c'⟩ := found
    have hc' := hforward v c' rfl
    have hsub : sub c'.position c.position = .ok (used v) := by
      have hlength := hused hplain
      have hinside : c'.position ≤ c.input.length := hc'.input_eq ▸ hc'.inside
      have := hc'.le
      rw [Cursor.length_left, Cursor.length_left, hc'.input_eq] at hlength
      rw [sub_eq hc'.le]
      congr 1
      omega
    obtain ⟨result, hr, hplain', hforward'⟩ := hf v _ rfl c' hc'.inside
    refine ⟨result, hfirst.bind_ok ?_, hplain', fun w c'' e => hc'.trans (hforward' w c'' e)⟩
    change ComesTo (StateT.run (get >>= _) c') result
    rw [run_get, run_check hsub]
    exact hr

end Moving

/-! ## The readers of a class file -/

theorem follows_readConstant : Follows readConstant ClassFile.readConstant := by
  refine follows_byte.bind fun tag => ?_
  generalize tag.toNat = kind
  split
  case h_1 => exact follows_word16.bind fun _ => (follows_take _).bind fun _ => follows_pure _
  case h_2 | h_3 => exact follows_word32.bind fun _ => follows_pure _
  case h_4 | h_5 => exact follows_word64.bind fun _ => follows_pure _
  case h_6 | h_7 => exact follows_word16.bind fun _ => follows_pure _
  case h_18 =>
    -- the other reader matches on the tag by itself, and splits here unless it has been split along
    try split
    all_goals first | contradiction | exact follows_throw _
  all_goals exact (follows_skip _).bind fun _ => follows_pure _

theorem follows_readSlots (missing : Nat) : Follows (readSlots missing) (ClassFile.readSlots missing) := by
  -- an entry fills one slot or two, so the induction is on all smaller numbers
  induction missing using Nat.strongRecOn with
  | ind missing ih =>
    rcases missing with _ | missing
    · exact follows_pure _
    · rw [readSlots, ClassFile.readSlots]
      refine follows_readConstant.bind fun constant => .ite ?_ ?_
      · rcases missing with _ | missing
        · exact follows_pure _
        · exact (ih missing (by omega)).bind fun _ => follows_pure _
      · exact (ih missing (by omega)).bind fun _ => follows_pure _

theorem follows_readPool : Follows readPool ClassFile.readPool :=
  follows_word16.bind fun _ => (follows_readSlots _).bind fun _ => follows_pure _

section

variable (pool : ConstantPool)

/-- A reference is read, and then looked up. -/
theorem follows_reference {β : Type} (lookup : UInt16 → Except FormatError β) :
    Follows (do found (lookup (← word16))) (do liftM (lookup (← ByteReader.word16))) :=
  follows_word16.bind fun index => follows_found (lookup index)

/-- Every reference takes two bytes. -/
theorem length_times_reference {β : Type} {lookup : UInt16 → Except FormatError β} {n : Nat} {bytes rest : Bytes}
    {values : List β} (h : Reads (ByteReader.times n do liftM (lookup (← ByteReader.word16))) bytes values rest) :
    bytes.length = 2 * n + rest.length := by
  induction n generalizing bytes values with
  | zero =>
    rw [(reads_pure.mp h).2]
    omega
  | succ n ih =>
    simp only [ByteReader.times, reads_bind, reads_pure, reads_word16, reads_lift] at h
    obtain ⟨value, _, ⟨index, _, rfl, -, rfl⟩, values, _, hrest, -, rfl⟩ := h
    rw [List.length_append, ClassFile.length_bigEndian, ih hrest]
    omega

/-- What follows the references is passed over, if they took no more than there is. A sum of some sixteen bits fits
thirty-two. -/
theorem follows_padding (length : Nat) {consumed used : Nat} (hc : consumed = used) (hused : used < 2 ^ 32)
    (names : List String) :
    Follows (do
      if length < consumed then throw .truncated
      let _ ← skip (← sub length (consumed % 2 ^ 32))
      return names) (do
      if length < used then throw .truncated
      ByteReader.skip (length - used)
      return names) := by
  rw [hc]
  by_cases hshort : length < used
  · rw [if_pos hshort, if_pos hshort]
    exact follows_throw _
  · rw [if_neg hshort, if_neg hshort, Nat.mod_eq_of_lt hused, sub_eq (Nat.not_lt.mp hshort)]
    exact (follows_pure names).skip _

theorem follows_readExceptions (length : Nat) :
    Follows (readExceptions pool length) (ClassFile.readExceptions pool length) := by
  -- the number of references is kept with their names, since it says how many bytes were read
  have hnames := follows_word16.bind fun number =>
    (follows_times (follows_reference pool.className) number.toNat).bind fun names => follows_pure (number, names)
  have hused : ∀ {bytes rest : Bytes} {v : UInt16 × List String}, Reads (do
      let number ← ByteReader.word16
      let names ← ByteReader.times number.toNat do liftM (pool.className (← ByteReader.word16))
      return (number, names)) bytes v rest → bytes.length = 2 + 2 * v.1.toNat + rest.length := by
    intro bytes rest v h
    simp only [reads_bind, reads_word16, reads_pure] at h
    obtain ⟨number, _, rfl, names, _, htimes, rfl, rfl⟩ := h
    rw [List.length_append, ClassFile.length_bigEndian, length_times_reference htimes, Nat.add_assoc]
  have hbound : ∀ number : UInt16, 2 + 2 * number.toNat < 2 ^ 32 := fun number => by
    have := number.toNat_lt
    omega
  have h := hnames.measured (fun v => 2 + 2 * v.1.toNat) hused fun v n hn => follows_padding length hn (hbound v.1) v.2
  simp only [bind_assoc, pure_bind] at h
  exact h

theorem follows_readAttribute (attributes : ClassFile.Attributes) :
    Follows (readAttribute pool attributes) (ClassFile.readAttribute pool attributes) := by
  refine follows_word16.bind fun index => (follows_found _).bind fun name => follows_word32.bind fun length => ?_
  refine .ite ?_ (.ite ?_ ?_)
  · exact follows_word16.bind fun _ => (follows_found _).bind fun _ => follows_pure _
  · exact (follows_readExceptions pool _).bind fun _ => follows_pure _
  · exact (follows_pure _).skip _

theorem follows_readMember : Follows (readMember pool) (ClassFile.readMember pool) := by
  refine follows_word16.bind fun flags => follows_word16.bind fun index => (follows_found _).bind fun name => ?_
  refine follows_word16.bind fun index' => (follows_found _).bind fun descriptor => follows_word16.bind fun n => ?_
  refine .bind ?_ fun attributes => follows_pure _
  exact follows_loop (follows_readAttribute pool) (fun _ => rfl) (fun _ => rfl) (fun _ _ => rfl) (fun _ _ => rfl) _ _

theorem follows_readClassAttribute (source : Option String) :
    Follows (readClassAttribute pool source) (ClassFile.readClassAttribute pool source) := by
  refine follows_word16.bind fun index => (follows_found _).bind fun name => follows_word32.bind fun length => ?_
  refine .ite ?_ ?_
  · exact follows_word16.bind fun _ => (follows_found _).bind fun _ => follows_pure _
  · exact (follows_pure _).skip _

theorem follows_readSuperClass : Follows (readSuperClass pool) (ClassFile.readSuperClass pool) :=
  follows_word16.bind fun _ => .ite (follows_pure _) ((follows_found _).bind fun _ => follows_pure _)

end

theorem follows_read : Follows read ClassFile.read := by
  refine follows_word32.bind fun start => .unless ?_
  refine follows_word16.bind fun minor => follows_word16.bind fun major => follows_readPool.bind fun pool => ?_
  refine follows_word16.bind fun flags => follows_word16.bind fun index => (follows_found _).bind fun thisClass => ?_
  refine (follows_readSuperClass pool).bind fun superClass => ?_
  refine follows_word16.bind fun n => (follows_times (follows_reference pool.className) _).bind fun interfaces => ?_
  refine follows_word16.bind fun k => (follows_times (follows_readMember pool) _).bind fun fields => ?_
  refine follows_word16.bind fun l => (follows_times (follows_readMember pool) _).bind fun methods => ?_
  refine follows_word16.bind fun j => .bind ?_ fun sourceFile => follows_pure _
  exact follows_loop (follows_readClassAttribute pool) (fun _ => rfl) (fun _ => rfl) (fun _ _ => rfl) (fun _ _ => rfl) _ _

/-- No check fails while a class file is read, whatever its bytes are. -/
theorem parse_comesTo (bytes : Bytes) : ComesTo (parse bytes) (ClassFile.parse bytes) := by
  obtain ⟨result, hr, hplain, -⟩ := follows_read ⟨bytes, 0⟩ (Nat.zero_le _)
  rw [ClassFile.parse, show bytes = Cursor.left ⟨bytes, 0⟩ from rfl, hplain]
  cases result with
  | ok found => exact hr.bind_ok (comesTo_pure _)
  | error e => exact hr.bind_error

end SourceJar.Checked
