import SourceJar.Proofs.ClassFormat

/-!
What readers of bytes accept.

`Reads r bytes v rest` says that a reader takes `v` off the front of `bytes` and leaves `rest`. One lemma
for each way to build a reader says what it reads, down to the bytes of numbers; a reader that accepts
exactly the written forms of some raw values `Decodes` them, and so does reading many of them after their
number (`reads_counted`).
-/

namespace SourceJar.ByteReader

variable {β γ ρ : Type}

/-- The reader takes `v` off the front of `bytes` and leaves `rest`. -/
def Reads (r : ByteReader β) (bytes : Bytes) (v : β) (rest : Bytes) : Prop := r.run bytes = .ok (v, rest)

/-- The reader accepts exactly the written forms of raw values, and gives what they mean. -/
def Decodes (r : ByteReader β) (write : ρ → Bytes) (Means : ρ → β → Prop) : Prop :=
  ∀ bytes v rest, Reads r bytes v rest ↔ ∃ raw, bytes = write raw ++ rest ∧ Means raw v

/-! ## Readers built from readers -/

theorem reads_pure {x v : β} {bytes rest : Bytes} :
    Reads (pure x) bytes v rest ↔ x = v ∧ bytes = rest := by
  simp [Reads, pure, StateT.pure, StateT.run, Except.pure]

theorem reads_bind {r : ByteReader β} {f : β → ByteReader γ} {bytes rest : Bytes} {v : γ} :
    Reads (r >>= f) bytes v rest ↔ ∃ x mid, Reads r bytes x mid ∧ Reads (f x) mid v rest := by
  simp only [Reads, StateT.run_bind]
  rcases r.run bytes with _ | ⟨x, mid⟩
  · simp [bind, Except.bind]
  · constructor
    · intro h
      exact ⟨x, mid, rfl, h⟩
    · intro h
      obtain ⟨_, _, e, h⟩ := h
      cases e
      exact h

theorem reads_lift {e : Except FormatError β} {v : β} {bytes rest : Bytes} :
    Reads (liftM e) bytes v rest ↔ e = .ok v ∧ bytes = rest := by
  cases e <;> simp [Reads, liftM, monadLift, MonadLift.monadLift, StateT.lift, StateT.run, bind, Except.bind,
    pure, Except.pure]

theorem reads_throw {e : FormatError} {v : β} {bytes rest : Bytes} :
    ¬Reads (throw e) bytes v rest := by
  simp [Reads, throw, throwThe, MonadExceptOf.throw, StateT.lift, StateT.run, bind, Except.bind]

theorem reads_ite {p : Prop} [Decidable p] {r r' : ByteReader β} {v : β} {bytes rest : Bytes} :
    Reads (if p then r else r') bytes v rest ↔ p ∧ Reads r bytes v rest ∨ ¬p ∧ Reads r' bytes v rest := by
  by_cases hp : p <;> simp [hp]

/-! ## Bytes and numbers -/

theorem reads_byte {bytes rest : Bytes} {b : UInt8} : Reads byte bytes b rest ↔ bytes = b :: rest := by
  cases bytes <;> simp [Reads, byte, StateT.run]

theorem reads_take {n : Nat} {bytes front rest : Bytes} :
    Reads (take n) bytes front rest ↔ front.length = n ∧ bytes = front ++ rest := by
  simp only [Reads, take, StateT.run]
  split
  · rename_i hn
    simp only [Except.ok.injEq, Prod.mk.injEq]
    constructor
    · intro h
      obtain ⟨rfl, rfl⟩ := h
      exact ⟨List.length_take_of_le hn, (List.take_append_drop n bytes).symm⟩
    · intro h
      obtain ⟨rfl, rfl⟩ := h
      exact ⟨List.take_left, List.drop_left⟩
  · rename_i hn
    simp only [reduceCtorEq, false_iff]
    intro h
    obtain ⟨rfl, rfl⟩ := h
    simp at hn

theorem reads_skip {n : Nat} {bytes rest : Bytes} {u : Unit} :
    Reads (skip n) bytes u rest ↔ ∃ front, front.length = n ∧ bytes = front ++ rest := by
  simp only [skip, reads_bind, reads_take, reads_pure, true_and]
  constructor
  · intro h
    obtain ⟨front, _, ⟨hn, e⟩, rfl⟩ := h
    exact ⟨front, hn, e⟩
  · intro h
    obtain ⟨front, hn, e⟩ := h
    exact ⟨front, rest, ⟨hn, e⟩, rfl⟩

/-- Two numbers one after another are one number in as many bytes. -/
theorem bigEndian_append (a b m : Nat) {n : Nat} (hn : n < 256 ^ b) :
    bigEndian a m ++ bigEndian b n = bigEndian (a + b) (m * 256 ^ b + n) := by
  induction b generalizing n with
  | zero =>
    have : n = 0 := by simpa using hn
    simp [bigEndian, this]
  | succ b ih =>
    have hq : n / 256 < 256 ^ b := by
      rw [Nat.pow_succ] at hn
      exact Nat.div_lt_of_lt_mul (by omega)
    have hd : (m * 256 ^ (b + 1) + n) / 256 = m * 256 ^ b + n / 256 := by
      rw [Nat.pow_succ, ← Nat.mul_assoc]; omega
    have hb : UInt8.ofNat (m * 256 ^ (b + 1) + n) = UInt8.ofNat n := by
      apply UInt8.toNat_inj.mp
      simp only [UInt8.toNat_ofNat']
      rw [Nat.pow_succ, ← Nat.mul_assoc]; omega
    rw [bigEndian, ← List.append_assoc, ih hq, ← Nat.add_assoc, bigEndian, hd, hb]

theorem bigEndian_one (b : UInt8) : bigEndian 1 b.toNat = [b] := by simp [bigEndian]

theorem shiftLeft_or {a b k : Nat} (ha : a < 2 ^ k) (hb : b < 2 ^ k) :
    a <<< k % 2 ^ (k + k) ||| b = a * 2 ^ k + b := by
  have hlt : a <<< k < 2 ^ (k + k) := by
    rw [Nat.shiftLeft_eq, Nat.pow_add]
    exact Nat.mul_lt_mul_of_pos_right ha (Nat.two_pow_pos k)
  rw [Nat.mod_eq_of_lt hlt, ← Nat.shiftLeft_add_eq_or_of_lt hb, Nat.shiftLeft_eq]

/-- A word is read as two halves. `toNat` is the number that a half stands for, `toNat'` that of a word. -/
theorem reads_halves (toNat : β → Nat) (toNat' : γ → Nat) (k : Nat) {r : ByteReader β} {join : β → β → γ}
    (hr : ∀ bytes x rest, Reads r bytes x rest ↔ bytes = bigEndian k (toNat x) ++ rest)
    (hlt : ∀ x, toNat x < 256 ^ k) (hall : ∀ n < 256 ^ k, ∃ x, toNat x = n)
    (hlt' : ∀ w, toNat' w < 256 ^ k * 256 ^ k) (hinj : ∀ w w', toNat' w = toNat' w' → w = w')
    (hj : ∀ x y, toNat' (join x y) = toNat x * 256 ^ k + toNat y) {bytes rest : Bytes} {w : γ} :
    Reads (do let x ← r; let y ← r; return join x y) bytes w rest ↔
      bytes = bigEndian (k + k) (toNat' w) ++ rest := by
  simp only [reads_bind, reads_pure, hr]
  constructor
  · intro h
    obtain ⟨x, _, rfl, y, _, rfl, rfl, rfl⟩ := h
    rw [hj, ← bigEndian_append k k _ (hlt y), List.append_assoc]
  · rintro rfl
    obtain ⟨x, hx⟩ := hall (toNat' w / 256 ^ k) (Nat.div_lt_of_lt_mul (hlt' w))
    obtain ⟨y, hy⟩ := hall (toNat' w % 256 ^ k) (Nat.mod_lt _ (Nat.pow_pos (by decide)))
    have hw : toNat' w = toNat x * 256 ^ k + toNat y := by
      rw [hx, hy]
      exact (Nat.div_add_mod' _ _).symm
    refine ⟨x, _, ?_, y, _, rfl, hinj _ _ ((hj x y).trans hw.symm), rfl⟩
    rw [hw, ← bigEndian_append k k _ (hlt y), List.append_assoc]

theorem word16_eq : word16 = do let a ← byte; let b ← byte; return a.toUInt16 <<< 8 ||| b.toUInt16 := by
  funext bytes
  rcases bytes with _ | ⟨a, _ | ⟨b, rest⟩⟩ <;> rfl

theorem reads_word16 {bytes rest : Bytes} {w : UInt16} :
    Reads word16 bytes w rest ↔ bytes = bigEndian 2 w.toNat ++ rest := by
  rw [word16_eq]
  refine reads_halves UInt8.toNat UInt16.toNat 1 (fun bytes b rest => ?_) (fun b => b.toNat_lt)
    (fun n hn => ⟨UInt8.ofNat n, UInt8.toNat_ofNat_of_lt hn⟩) (fun w => w.toNat_lt)
    (fun _ _ => UInt16.toNat_inj.mp) (fun a b => ?_)
  · rw [reads_byte, bigEndian_one, List.singleton_append]
  · simpa using shiftLeft_or a.toNat_lt b.toNat_lt

theorem reads_word32 {bytes rest : Bytes} {w : UInt32} :
    Reads word32 bytes w rest ↔ bytes = bigEndian 4 w.toNat ++ rest := by
  refine reads_halves UInt16.toNat UInt32.toNat 2 (fun _ _ _ => reads_word16) (fun a => a.toNat_lt)
    (fun n hn => ⟨UInt16.ofNat n, UInt16.toNat_ofNat_of_lt hn⟩) (fun w => w.toNat_lt)
    (fun _ _ => UInt32.toNat_inj.mp) (fun a b => ?_)
  simpa using shiftLeft_or a.toNat_lt b.toNat_lt

theorem reads_word64 {bytes rest : Bytes} {w : UInt64} :
    Reads word64 bytes w rest ↔ bytes = bigEndian 8 w.toNat ++ rest := by
  refine reads_halves UInt32.toNat UInt64.toNat 4 (fun _ _ _ => reads_word32) (fun a => a.toNat_lt)
    (fun n hn => ⟨UInt32.ofNat n, UInt32.toNat_ofNat_of_lt hn⟩) (fun w => w.toNat_lt)
    (fun _ _ => UInt64.toNat_inj.mp) (fun a b => ?_)
  simpa using shiftLeft_or a.toNat_lt b.toNat_lt

/-! ## Many values -/

theorem reads_times {step : ByteReader β} {write : ρ → Bytes} {Means : ρ → β → Prop}
    (hs : Decodes step write Means) {n : Nat} {bytes rest : Bytes} {values : List β} :
    Reads (times n step) bytes values rest ↔
      ∃ raws, raws.length = n ∧ bytes = raws.flatMap write ++ rest ∧ List.Forall₂ Means raws values := by
  induction n generalizing bytes rest values with
  | zero =>
    simp only [times, reads_pure, List.length_eq_zero_iff, exists_eq_left, List.flatMap_nil, List.nil_append,
      List.forall₂_nil_left_iff]
    exact ⟨fun ⟨e, hb⟩ => ⟨hb, e.symm⟩, fun ⟨hb, e⟩ => ⟨e.symm, hb⟩⟩
  | succ n ih =>
    simp only [times, reads_bind, reads_pure, hs _ _ _, ih]
    constructor
    · intro h
      obtain ⟨first, _, ⟨raw, rfl, hm⟩, values, _, ⟨raws, rfl, rfl, hms⟩, rfl, rfl⟩ := h
      exact ⟨raw :: raws, rfl, by simp, .cons hm hms⟩
    · intro h
      obtain ⟨raws, hn, rfl, hms⟩ := h
      cases hms with
      | nil => cases hn
      | @cons raw first raws values hm hms =>
        refine ⟨first, _, ⟨raw, ?_, hm⟩, values, rest, ⟨raws, by simpa using hn, rfl, hms⟩, rfl, rfl⟩
        simp

/-- Raw values after their number have the bytes of the number and their own. -/
theorem counted_iff {write : ρ → Bytes} {P : List ρ → Prop} {bytes rest : Bytes} :
    (∃ (n : UInt16) (mid : Bytes), bytes = bigEndian 2 n.toNat ++ mid ∧
        ∃ raws, raws.length = n.toNat ∧ mid = raws.flatMap write ++ rest ∧ P raws) ↔
      ∃ raws, raws.length < 2 ^ 16 ∧ bytes = ClassFile.counted write raws ++ rest ∧ P raws := by
  unfold ClassFile.counted
  constructor
  · intro h
    obtain ⟨n, _, rfl, raws, hn, rfl, hp⟩ := h
    exact ⟨raws, hn ▸ n.toNat_lt, by rw [hn, List.append_assoc], hp⟩
  · intro h
    obtain ⟨raws, hn, rfl, hp⟩ := h
    have hl : (UInt16.ofNat raws.length).toNat = raws.length := UInt16.toNat_ofNat_of_lt hn
    exact ⟨UInt16.ofNat raws.length, _, by rw [hl, List.append_assoc], raws, hl.symm, rfl, hp⟩

/-- Values after their number. -/
theorem reads_counted {step : ByteReader β} {write : ρ → Bytes} {Means : ρ → β → Prop}
    (hs : Decodes step write Means) {bytes rest : Bytes} {values : List β} :
    (∃ (n : UInt16) (mid : Bytes), bytes = bigEndian 2 n.toNat ++ mid ∧
        Reads (times n.toNat step) mid values rest) ↔
      ∃ raws, raws.length < 2 ^ 16 ∧ bytes = ClassFile.counted write raws ++ rest ∧
        List.Forall₂ Means raws values := by
  simp only [reads_times hs]
  exact counted_iff

/-- A step that adds what it reads to what was found, taken a number of times. -/
theorem reads_loop {μ : Type} {step : β → ByteReader β} {loop : Nat → β → ByteReader β} {write : ρ → Bytes}
    {Means : ρ → μ → Prop} {add : β → μ → β} (hzero : ∀ found, loop 0 found = pure found)
    (hsucc : ∀ n found, loop (n + 1) found = step found >>= loop n)
    (hstep : ∀ found bytes found' rest, Reads (step found) bytes found' rest ↔
      ∃ raw meaning, bytes = write raw ++ rest ∧ Means raw meaning ∧ found' = add found meaning)
    {n : Nat} {found found' : β} {bytes rest : Bytes} :
    Reads (loop n found) bytes found' rest ↔
      ∃ raws, raws.length = n ∧ bytes = raws.flatMap write ++ rest ∧
        ∃ meanings, List.Forall₂ Means raws meanings ∧ found' = meanings.foldl add found := by
  induction n generalizing found bytes with
  | zero =>
    rw [hzero, reads_pure]
    constructor
    · intro h
      obtain ⟨rfl, rfl⟩ := h
      exact ⟨[], rfl, rfl, [], .nil, rfl⟩
    · intro h
      obtain ⟨raws, hn, rfl, meanings, hm, rfl⟩ := h
      obtain rfl := List.length_eq_zero_iff.mp hn
      cases hm
      exact ⟨rfl, rfl⟩
  | succ n ih =>
    simp only [hsucc, reads_bind, hstep, ih]
    constructor
    · intro h
      obtain ⟨_, _, ⟨raw, meaning, rfl, hm, rfl⟩, raws, rfl, rfl, meanings, hms, rfl⟩ := h
      exact ⟨raw :: raws, rfl, by simp, meaning :: meanings, .cons hm hms, rfl⟩
    · intro h
      obtain ⟨raws, hn, rfl, meanings, hms, rfl⟩ := h
      cases hms with
      | nil => cases hn
      | @cons raw meaning raws meanings hm hms =>
        refine ⟨_, _, ⟨raw, meaning, ?_, hm, rfl⟩, raws, by simpa using hn, rfl, meanings, hms, rfl⟩
        simp

end SourceJar.ByteReader
