import SourceJar.Proofs.ByteReading

/-!
What a class file comes to is decided by a prefix of its bytes.

A reader only ever looks at the next byte, and says that there is none before anything else can go wrong. So
unless it runs out of bytes it comes to the same with more of them behind (`Settles`). This is shown for each way
to build a reader and carried through the readers of a class file, from constants to the whole.

- `Settles.bind`, `settles_times`: readers built from readers.
- `settles_readSlots`, `settles_readMember`, `settles_read`: the readers of a class file.
- `parse_decided_by_prefix`: a class file that is cut short is truncated, or it was not needed any further.
-/

namespace SourceJar

namespace ByteReader

variable {β γ : Type}

/-- Unless the reader runs out of bytes it comes to the same with more of them behind, and leaves these too. -/
def Settles (r : ByteReader β) : Prop :=
  ∀ bytes more, r.run bytes = .error .truncated ∨
    r.run (bytes ++ more) = (r.run bytes).map fun (v, rest) => (v, rest ++ more)

/-! ## Readers built from readers -/

theorem settles_pure (v : β) : Settles (pure v) := fun _ _ => .inr rfl

theorem settles_throw (e : FormatError) : Settles (throw e : ByteReader β) := fun _ _ => .inr rfl

theorem settles_lift (e : Except FormatError β) : Settles (liftM e) := by
  intro bytes more
  cases e <;> exact .inr rfl

theorem Settles.bind {r : ByteReader β} {f : β → ByteReader γ} (hr : Settles r) (hf : ∀ v, Settles (f v)) :
    Settles (r >>= f) := by
  intro bytes more
  simp only [StateT.run_bind]
  rcases hr bytes more with h | h
  · rw [h]
    exact .inl rfl
  · rw [h]
    rcases r.run bytes with e | ⟨v, rest⟩
    · exact .inr rfl
    · exact hf v rest more

theorem Settles.ite {p : Prop} [Decidable p] {r r' : ByteReader β} (hr : Settles r) (hr' : Settles r') :
    Settles (if p then r else r') := by
  split
  · exact hr
  · exact hr'

/-- A check that may fail before the reader goes on. -/
theorem Settles.unless {p : Prop} [Decidable p] {e : FormatError} {f : Unit → ByteReader β} (hf : Settles (f ())) :
    Settles (if p then throw e >>= f else f ()) :=
  .ite (fun _ _ => .inr rfl) hf

theorem settles_byte : Settles byte := by
  intro bytes more
  cases bytes with
  | nil => exact .inl rfl
  | cons b rest => exact .inr rfl

theorem settles_word16 : Settles word16 := by
  rw [word16_eq]
  exact settles_byte.bind fun _ => settles_byte.bind fun _ => settles_pure _

theorem settles_word32 : Settles word32 := settles_word16.bind fun _ => settles_word16.bind fun _ => settles_pure _

theorem settles_word64 : Settles word64 := settles_word32.bind fun _ => settles_word32.bind fun _ => settles_pure _

theorem settles_take (count : Nat) : Settles (take count) := by
  intro bytes more
  simp only [take, StateT.run]
  by_cases h : count ≤ bytes.length
  · have hlong : count ≤ (bytes ++ more).length := by
      rw [List.length_append]
      omega
    rw [if_pos h, if_pos hlong, List.take_append_of_le_length h, List.drop_append_of_le_length h]
    exact .inr rfl
  · rw [if_neg h]
    exact .inl rfl

theorem settles_skip (count : Nat) : Settles (skip count) := (settles_take count).bind fun _ => settles_pure _

theorem settles_times {step : ByteReader β} (hs : Settles step) (n : Nat) : Settles (times n step) := by
  induction n with
  | zero => exact settles_pure _
  | succ n ih => exact hs.bind fun _ => ih.bind fun _ => settles_pure _

/-- A step that is taken a number of times, each with what the one before has found. -/
theorem settles_loop {step : β → ByteReader β} {loop : Nat → β → ByteReader β} (hs : ∀ found, Settles (step found))
    (hzero : ∀ found, loop 0 found = pure found) (hsucc : ∀ n found, loop (n + 1) found = step found >>= loop n)
    (n : Nat) (found : β) : Settles (loop n found) := by
  induction n generalizing found with
  | zero =>
    rw [hzero]
    exact settles_pure _
  | succ n ih =>
    rw [hsucc]
    exact (hs found).bind ih

end ByteReader

namespace ClassFile

open ByteReader

/-! ## The constant pool -/

theorem settles_readConstant : Settles readConstant := by
  refine settles_byte.bind fun tag => ?_
  split
  case h_1 => exact settles_word16.bind fun _ => (settles_take _).bind fun _ => settles_pure _
  case h_2 | h_3 => exact settles_word32.bind fun _ => settles_pure _
  case h_4 | h_5 => exact settles_word64.bind fun _ => settles_pure _
  case h_6 | h_7 => exact settles_word16.bind fun _ => settles_pure _
  case h_18 => exact settles_throw _
  all_goals exact (settles_take _).bind fun _ => settles_pure _

theorem settles_readSlots (missing : Nat) : Settles (readSlots missing) := by
  -- an entry fills one slot or two, so the induction is on all smaller numbers
  induction missing using Nat.strongRecOn with
  | ind missing ih =>
    rcases missing with _ | missing
    · exact settles_pure _
    · rw [readSlots]
      refine settles_readConstant.bind fun constant => .ite ?_ ?_
      · rcases missing with _ | missing
        · exact settles_pure _
        · exact (ih missing (by omega)).bind fun _ => settles_pure _
      · exact (ih missing (by omega)).bind fun _ => settles_pure _

theorem settles_readPool : Settles readPool :=
  settles_word16.bind fun _ => (settles_readSlots _).bind fun _ => settles_pure _

/-! ## Members and attributes -/

section

variable (pool : ConstantPool)

/-- A reference is read, and then looked up. -/
theorem settles_reference {β : Type} (lookup : UInt16 → Except FormatError β) :
    Settles (do liftM (lookup (← word16))) :=
  settles_word16.bind fun index => settles_lift (lookup index)

theorem settles_readExceptions (length : Nat) : Settles (readExceptions pool length) := by
  refine settles_word16.bind fun number => (settles_times (settles_reference pool.className) _).bind fun names => ?_
  exact .unless ((settles_skip _).bind fun _ => settles_pure _)

theorem settles_readAttribute (found : Attributes) : Settles (readAttribute pool found) := by
  refine settles_word16.bind fun index => (settles_lift _).bind fun name => settles_word32.bind fun length => ?_
  refine .ite ?_ (.ite ?_ ?_)
  · exact settles_word16.bind fun _ => (settles_lift _).bind fun _ => settles_pure _
  · exact (settles_readExceptions pool _).bind fun _ => settles_pure _
  · exact (settles_skip _).bind fun _ => settles_pure _

theorem settles_readMember : Settles (readMember pool) := by
  refine settles_word16.bind fun flags => settles_word16.bind fun index => (settles_lift _).bind fun name => ?_
  refine settles_word16.bind fun index' => (settles_lift _).bind fun descriptor => settles_word16.bind fun n => ?_
  refine .bind ?_ fun attributes => settles_pure _
  exact settles_loop (settles_readAttribute pool) (fun _ => rfl) (fun _ _ => rfl) _ _

theorem settles_readClassAttribute (found : Option String) : Settles (readClassAttribute pool found) := by
  refine settles_word16.bind fun index => (settles_lift _).bind fun name => settles_word32.bind fun length => ?_
  refine .ite ?_ ?_
  · exact settles_word16.bind fun _ => (settles_lift _).bind fun _ => settles_pure _
  · exact (settles_skip _).bind fun _ => settles_pure _

theorem settles_readSuperClass : Settles (readSuperClass pool) :=
  settles_word16.bind fun _ => .ite (settles_pure _) ((settles_lift _).bind fun _ => settles_pure _)

end

/-! ## The whole class -/

theorem settles_read : Settles read := by
  refine settles_word32.bind fun start => .unless ?_
  refine settles_word16.bind fun minor => settles_word16.bind fun major => settles_readPool.bind fun pool => ?_
  refine settles_word16.bind fun flags => settles_word16.bind fun index => (settles_lift _).bind fun thisClass => ?_
  refine (settles_readSuperClass pool).bind fun superClass => ?_
  refine settles_word16.bind fun n => (settles_times (settles_reference pool.className) _).bind fun interfaces => ?_
  refine settles_word16.bind fun k => (settles_times (settles_readMember pool) _).bind fun fields => ?_
  refine settles_word16.bind fun l => (settles_times (settles_readMember pool) _).bind fun methods => ?_
  refine settles_word16.bind fun j => .bind ?_ fun sourceFile => settles_pure _
  exact settles_loop (settles_readClassAttribute pool) (fun _ => rfl) (fun _ _ => rfl) _ _

theorem parse_append (bytes more : Bytes) : parse bytes = .error .truncated ∨ parse (bytes ++ more) = parse bytes := by
  unfold parse
  rcases settles_read bytes more with h | h
  · rw [h]
    exact .inl rfl
  · rw [h]
    rcases read.run bytes with e | ⟨c, rest⟩ <;> exact .inr rfl

/-- Unless some bytes are cut short, whatever follows them leaves their result alone, a declaration or a fault. So
there is a number of bytes that decides: the prefixes of that length or more all come to what the whole comes to, and
the shorter ones are truncated. -/
theorem parse_decided_by_prefix (bytes : Bytes) :
    (∀ more, parse bytes = .error .truncated ∨ parse (bytes ++ more) = parse bytes) ∧
      ∃ n ≤ bytes.length, ∀ k, parse (bytes.take k) = if n ≤ k then parse bytes else .error .truncated := by
  refine ⟨parse_append bytes, ?_⟩
  have hcut : ∀ k, parse (bytes.take k) = .error .truncated ∨ parse bytes = parse (bytes.take k) := fun k => by
    simpa using parse_append (bytes.take k) (bytes.drop k)
  by_cases hb : parse bytes = .error .truncated
  · refine ⟨0, Nat.zero_le _, fun k => ?_⟩
    rw [if_pos (Nat.zero_le k)]
    rcases hcut k with h | h
    · rw [h, hb]
    · exact h.symm
  · -- the least number of bytes that are not truncated
    classical
    have hsome : ∃ k, parse (bytes.take k) ≠ .error .truncated := ⟨bytes.length, by rwa [List.take_length]⟩
    refine ⟨Nat.find hsome, Nat.find_min' hsome (by rwa [List.take_length]), fun k => ?_⟩
    split
    · rename_i hk
      -- the least prefix is one of this prefix too
      have hless := parse_append ((bytes.take k).take (Nat.find hsome)) ((bytes.take k).drop (Nat.find hsome))
      rw [List.take_append_drop, List.take_take, Nat.min_eq_left hk] at hless
      have hfind := Nat.find_spec hsome
      rw [hless.resolve_left hfind, (hcut (Nat.find hsome)).resolve_left hfind]
    · rename_i hk
      exact not_not.mp (Nat.find_min hsome (Nat.not_le.mp hk))

end ClassFile

end SourceJar
