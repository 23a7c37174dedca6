import SourceJar.Proofs.ByteReading

/-!
Reading accepts exactly the class file format.

The reader is followed from the inside out, one lemma for each of its parts: what it accepts, and what
that stands for. A pool that was read has the slots of its entries (`poolOf`), and looking one up there
is finding the entry whose slots begin at the index.

Main statements:
- `Constant.reads_readConstant`, `reads_readSlots`: entries are read until the declared count is come to,
  and not one more.
- `entry_poolOf`: a lookup gives the entry that stands in the slot.
- `reads_readAttribute`, `decodes_readMember`: attributes, and what they add to a member.
- `parse_eq_ok_iff`: a declaration is read off some bytes exactly when a raw class with these bytes, up to
  trailing ones, stands for it.
-/

namespace SourceJar

open ByteReader

/-! ## Constants -/

namespace Constant

theorem payloadLength?_eq_some {tag : UInt8} {n : Nat} (h : payloadLength? tag = some n) :
    tag ∈ [9, 10, 11, 12, 17, 18] ∧ n = 4 ∨ tag = 15 ∧ n = 3 ∨ tag ∈ [16, 19, 20] ∧ n = 2 := by
  unfold payloadLength? at h
  grind

theorem reads_payload {tag : UInt8} {payload rest : Bytes} {n : Nat} (hn : payload.length = n) :
    Reads (do return Constant.other tag (← take n)) (payload ++ rest) (.other tag payload) rest :=
  reads_bind.mpr ⟨payload, rest, reads_take.mpr ⟨hn, rfl⟩, reads_pure.mpr ⟨rfl, rfl⟩⟩

theorem reads_readConstant {bytes rest : Bytes} {c : Constant} :
    Reads ClassFile.readConstant bytes c rest ↔ c.Writable ∧ bytes = c.bytes ++ rest := by
  simp only [ClassFile.readConstant, reads_bind, reads_byte]
  constructor
  · intro h
    obtain ⟨tag, _, rfl, h⟩ := h
    split at h
    case h_18 => exact (reads_throw h).elim
    all_goals
      rename_i ht
      have htag : tag = _ := UInt8.ofNat_toNat.symm.trans (congrArg UInt8.ofNat ht)
      subst htag
      simp only [reads_bind, reads_pure, reads_word16, reads_word32, reads_word64, reads_take] at h
    case h_1 =>
      obtain ⟨n, _, rfl, text, _, ⟨hn, rfl⟩, rfl, rfl⟩ := h
      have hlt : text.length < 2 ^ 16 := hn ▸ n.toNat_lt
      exact ⟨hlt, by simp [Constant.bytes, hn]⟩
    case h_2 | h_3 | h_4 | h_5 | h_6 | h_7 =>
      obtain ⟨w, _, rfl, rfl, rfl⟩ := h
      exact ⟨trivial, rfl⟩
    all_goals
      obtain ⟨payload, _, ⟨hn, rfl⟩, rfl, rfl⟩ := h
      exact ⟨by rw [Writable, hn]; rfl, rfl⟩
  · intro h
    obtain ⟨hw, rfl⟩ := h
    cases c with
    | utf8 text =>
      have hl : (UInt16.ofNat text.length).toNat = text.length := UInt16.toNat_ofNat_of_lt hw
      refine ⟨1, _, rfl, ?_⟩
      simp only [UInt8.reduceToNat, reads_bind, reads_pure, reads_word16, reads_take]
      exact ⟨UInt16.ofNat text.length, text ++ rest, by simp [hl], text, rest, ⟨hl.symm, rfl⟩, rfl, rfl⟩
    | integer bits | float bits | long bits | double bits | classRef bits | string bits =>
      refine ⟨_, _, rfl, ?_⟩
      simp only [UInt8.reduceToNat, reads_bind, reads_pure, reads_word16, reads_word32, reads_word64]
      exact ⟨bits, rest, rfl, rfl, rfl⟩
    | other tag payload =>
      refine ⟨_, _, rfl, ?_⟩
      rcases payloadLength?_eq_some hw with ⟨ht, hn⟩ | ⟨rfl, hn⟩ | ⟨ht, hn⟩
      · simp only [List.mem_cons, List.not_mem_nil, or_false] at ht
        rcases ht with rfl | rfl | rfl | rfl | rfl | rfl <;> exact reads_payload hn
      · exact reads_payload hn
      · simp only [List.mem_cons, List.not_mem_nil, or_false] at ht
        rcases ht with rfl | rfl | rfl <;> exact reads_payload hn
    | unusable => exact hw.elim

/-- The slots that an entry takes. -/
def slots (c : Constant) : List Constant := if c.isWide then [c, .unusable] else [c]

end Constant

/-! ## Slots -/

theorem slotCount_cons (c : Constant) (entries : List Constant) :
    slotCount (c :: entries) = c.width + slotCount entries := by
  simp [slotCount]

theorem Constant.width_pos (c : Constant) : 0 < c.width := by
  unfold Constant.width
  split <;> decide

/-- Slot 0 alone is enough for a count of one or none. -/
theorem fills_le_one {count : Nat} (hc : count ≤ 1) {entries : List Constant} :
    Fills count entries ↔ entries = [] := by
  constructor
  · intro h
    apply Classical.byContradiction
    intro hne
    have := h.needed [] List.nil_prefix (Ne.symm hne)
    omega
  · rintro rfl
    exact ⟨by omega, fun front hf hne => absurd (List.prefix_nil.mp hf) hne⟩

/-- The first entry takes its slots off what is missing. -/
theorem fills_cons {missing : Nat} {c : Constant} {entries : List Constant} :
    Fills (missing + 2) (c :: entries) ↔ Fills (missing + 1 - c.width + 1) entries := by
  have hw := c.width_pos
  constructor
  · intro h
    refine ⟨?_, fun front hf hne => ?_⟩
    · have := h.enough
      rw [slotCount_cons] at this
      omega
    · have := h.needed (c :: front) (List.cons_prefix_cons.mpr ⟨rfl, hf⟩) (by simpa using hne)
      rw [slotCount_cons] at this
      omega
  · intro h
    refine ⟨?_, fun front hf hne => ?_⟩
    · have := h.enough
      rw [slotCount_cons]
      omega
    · cases front with
      | nil => show 1 + 0 < missing + 2; omega
      | cons first front =>
        obtain ⟨rfl, hft⟩ := List.cons_prefix_cons.mp hf
        have := h.needed front hft (by simpa using hne)
        rw [slotCount_cons]
        omega

theorem not_fills_nil {missing : Nat} : ¬Fills (missing + 2) [] := by
  intro h
  have : missing + 2 ≤ 1 + 0 := h.enough
  omega

theorem fills_sub_one {count : Nat} {entries : List Constant} :
    Fills (count - 1 + 1) entries ↔ Fills count entries := by
  cases count with
  | zero => rw [fills_le_one (by omega), fills_le_one (by omega)]
  | succ count => rfl

namespace ClassFile

/-- An entry is read, and then what it leaves missing. -/
theorem readSlots_succ (missing : Nat) : readSlots (missing + 1) = do
    let c ← readConstant
    let rest ← readSlots (missing + 1 - c.width)
    return c.slots ++ rest := by
  rw [readSlots]
  congr 1
  funext c
  unfold Constant.width Constant.slots
  split
  · cases missing <;> simp [readSlots]
  · simp

theorem reads_readSlots {missing : Nat} {bytes rest : Bytes} {slots : List Constant} :
    Reads (readSlots missing) bytes slots rest ↔
      ∃ entries, (∀ c ∈ entries, c.Writable) ∧ Fills (missing + 1) entries ∧
        bytes = entries.flatMap Constant.bytes ++ rest ∧ slots = entries.flatMap Constant.slots := by
  induction missing using Nat.strongRecOn generalizing bytes rest slots with
  | ind missing ih =>
    cases missing with
    | zero =>
      simp only [readSlots, reads_pure, fills_le_one (Nat.le_refl (0 + 1))]
      constructor
      · intro h
        obtain ⟨rfl, rfl⟩ := h
        exact ⟨[], by simp, rfl, rfl, rfl⟩
      · intro h
        obtain ⟨_, -, rfl, rfl, rfl⟩ := h
        exact ⟨rfl, rfl⟩
    | succ missing =>
      simp only [readSlots_succ, reads_bind, reads_pure, Constant.reads_readConstant]
      have hlt : ∀ c : Constant, missing + 1 - c.width < missing + 1 := fun c => by
        have := c.width_pos
        omega
      constructor
      · intro h
        obtain ⟨c, _, ⟨hc, rfl⟩, slots, _, h, rfl, rfl⟩ := h
        obtain ⟨entries, hw, hf, rfl, rfl⟩ := (ih _ (hlt c)).mp h
        exact ⟨c :: entries, List.forall_mem_cons.mpr ⟨hc, hw⟩, fills_cons.mpr hf, by simp, by simp⟩
      · intro h
        obtain ⟨entries, hw, hf, rfl, rfl⟩ := h
        cases entries with
        | nil => exact (not_fills_nil hf).elim
        | cons c entries =>
          obtain ⟨hc, hw⟩ := List.forall_mem_cons.mp hw
          refine ⟨c, _, ⟨hc, by rw [List.flatMap_cons, List.append_assoc]⟩, entries.flatMap Constant.slots, rest,
            (ih _ (hlt c)).mpr ⟨entries, hw, fills_cons.mp hf, rfl, rfl⟩, by simp, rfl⟩

/-- The slots of the pool with the given entries. -/
def poolOf (entries : List Constant) : ConstantPool :=
  (Constant.unusable :: entries.flatMap Constant.slots).toArray

theorem reads_readPool {bytes rest : Bytes} {pool : ConstantPool} :
    Reads readPool bytes pool rest ↔ ∃ raw : RawPool, bytes = raw.bytes ++ rest ∧ pool = poolOf raw.entries := by
  simp only [readPool, reads_bind, reads_word16, reads_pure, reads_readSlots, fills_sub_one]
  constructor
  · intro h
    obtain ⟨count, _, rfl, _, _, ⟨entries, hw, hf, rfl, rfl⟩, rfl, rfl⟩ := h
    exact ⟨⟨count, entries, hw, hf⟩, by simp [RawPool.bytes, indexBytes], rfl⟩
  · intro h
    obtain ⟨⟨count, entries, hw, hf⟩, rfl, rfl⟩ := h
    exact ⟨count, _, by simp [RawPool.bytes, indexBytes], _, rest, ⟨entries, hw, hf, rfl, rfl⟩, rfl, rfl⟩

/-! ## References -/

theorem slotCount_split_cons {first c : Constant} {entries : List Constant} {k : Nat} :
    (∃ front back, first :: entries = front ++ c :: back ∧ k = slotCount front) ↔
      first = c ∧ k = 0 ∨ ∃ front back, entries = front ++ c :: back ∧ k = first.width + slotCount front := by
  constructor
  · intro h
    obtain ⟨front, back, e, rfl⟩ := h
    cases front with
    | nil => exact Or.inl ⟨(List.cons.inj e).1, rfl⟩
    | cons d front =>
      obtain ⟨rfl, hrest⟩ := List.cons.inj e
      exact Or.inr ⟨front, back, hrest, slotCount_cons _ _⟩
  · intro h
    rcases h with ⟨rfl, rfl⟩ | ⟨front, back, rfl, rfl⟩
    · exact ⟨[], entries, rfl, rfl⟩
    · exact ⟨first :: front, back, rfl, (slotCount_cons _ _).symm⟩

/-- An entry stands where the slots of the entries before it end. -/
theorem getElem?_slots {entries : List Constant} {k : Nat} {c : Constant} (hc : c ≠ .unusable) :
    (entries.flatMap Constant.slots)[k]? = some c ↔
      ∃ front back, entries = front ++ c :: back ∧ k = slotCount front := by
  induction entries generalizing k with
  | nil => simp
  | cons first entries ih =>
    rw [slotCount_split_cons, List.flatMap_cons]
    by_cases hw : first.isWide
    · simp only [Constant.slots, Constant.width, hw, if_true]
      rcases k with _ | _ | k
      · simp; omega
      · simp [Ne.symm hc]; omega
      · simp [ih]; grind
    · simp only [Constant.slots, Constant.width, hw]
      rcases k with _ | k
      · simp; omega
      · simp [ih]; grind

theorem entry_poolOf {entries : List Constant} {index : UInt16} {c : Constant} (hc : c ≠ .unusable) :
    (poolOf entries).entry index = .ok c ↔ InSlot entries index.toNat c := by
  unfold ConstantPool.entry poolOf InSlot
  by_cases h0 : index = 0
  · rw [if_pos h0]
    simp only [reduceCtorEq, false_iff]
    intro h
    obtain ⟨front, back, -, hk⟩ := h
    rw [h0] at hk
    have : (0 : Nat) = 1 + slotCount front := hk
    omega
  · have hpos : index.toNat ≠ 0 := fun h => h0 (UInt16.toNat_inj.mp h)
    obtain ⟨k, hk⟩ := Nat.exists_eq_succ_of_ne_zero hpos
    rw [if_neg h0, hk]
    simp only [Nat.succ_eq_add_one, List.getElem?_toArray, List.getElem?_cons_succ, Nat.add_comm 1,
      Nat.add_right_cancel_iff, ← getElem?_slots hc]
    rcases (entries.flatMap Constant.slots)[k]? with _ | d <;> simp

theorem utf8_poolOf {entries : List Constant} {index : UInt16} {text : String} :
    (poolOf entries).utf8 index = .ok text ↔ HasText entries index text := by
  have hs : ∀ bytes, InSlot entries index.toNat (.utf8 bytes) ↔
      (poolOf entries).entry index = .ok (.utf8 bytes) := fun bytes => (entry_poolOf (by simp)).symm
  simp only [HasText, hs, ConstantPool.utf8]
  rcases (poolOf entries).entry index with e | c
  · simp [bind, Except.bind]
  · cases c <;> simp [bind, Except.bind, eq_comm]

theorem className_poolOf {entries : List Constant} {index : UInt16} {name : String} :
    (poolOf entries).className index = .ok name ↔ HasClass entries index name := by
  have hs : ∀ text, InSlot entries index.toNat (.classRef text) ↔
      (poolOf entries).entry index = .ok (.classRef text) := fun text => (entry_poolOf (by simp)).symm
  simp only [HasClass, hs, ConstantPool.className]
  rcases (poolOf entries).entry index with e | c
  · simp [bind, Except.bind]
  · cases c <;> simp [bind, Except.bind, utf8_poolOf]

theorem value_poolOf {entries : List Constant} {index : UInt16} {value : ConstantValue} :
    (poolOf entries).value index = .ok value ↔ HasValue entries index value := by
  constructor
  · intro h
    unfold ConstantPool.value at h
    rcases he : (poolOf entries).entry index with e | c
    · simp [he, bind, Except.bind] at h
    · have hs : c ≠ .unusable → InSlot entries index.toNat c := fun hc => (entry_poolOf hc).mp he
      rw [he] at h
      cases c with
      | integer bits => cases h; exact .int (hs (by simp))
      | float bits => cases h; exact .float (hs (by simp))
      | long bits => cases h; exact .long (hs (by simp))
      | double bits => cases h; exact .double (hs (by simp))
      | string text =>
        rcases ht : (poolOf entries).utf8 text with e | value
        · simp [ht, bind, Except.bind] at h
        · simp only [ht, bind, Except.bind] at h
          cases h
          exact .string (hs (by simp)) (utf8_poolOf.mp ht)
      | utf8 bytes | classRef name | other tag payload | unusable => cases h
  · intro h
    unfold ConstantPool.value
    cases h with
    | int h | float h | long h | double h => rw [(entry_poolOf (by simp)).mpr h]; rfl
    | string h ht =>
      rw [(entry_poolOf (by simp)).mpr h]
      simp [bind, Except.bind, utf8_poolOf.mpr ht, pure, Except.pure]

/-! ## Attributes and members -/

theorem decodes_classRef (entries : List Constant) :
    Decodes (do (poolOf entries).className (← word16)) indexBytes (HasClass entries) := by
  intro bytes name rest
  simp only [reads_bind, reads_word16, reads_lift, className_poolOf, indexBytes]
  constructor
  · intro h
    obtain ⟨index, _, rfl, h, rfl⟩ := h
    exact ⟨index, rfl, h⟩
  · intro h
    obtain ⟨index, rfl, h⟩ := h
    exact ⟨index, rest, rfl, h, rfl⟩

theorem length_bigEndian (width n : Nat) : (bigEndian width n).length = width := by
  induction width generalizing n with
  | zero => rfl
  | succ width ih => simp [bigEndian, ih]

theorem length_indexBytes (index : UInt16) : (indexBytes index).length = 2 := length_bigEndian _ _

theorem length_counted_indexBytes (indices : List UInt16) :
    (counted indexBytes indices).length = 2 + 2 * indices.length := by
  simp [counted, length_bigEndian, List.length_flatMap, length_indexBytes, Nat.mul_comm]

/-- An attribute of class references: what stands after them is passed over. -/
theorem reads_readExceptions {entries : List Constant} {length : Nat} {bytes rest : Bytes}
    {names : List String} :
    Reads (readExceptions (poolOf entries) length) bytes names rest ↔
      ∃ indices padding, indices.length < 2 ^ 16 ∧ bytes = counted indexBytes indices ++ padding ++ rest ∧
        (counted indexBytes indices ++ padding).length = length ∧
        List.Forall₂ (HasClass entries) indices names := by
  simp only [readExceptions, reads_bind, reads_word16, reads_ite, reads_skip, reads_pure, reads_throw, false_and,
    exists_false, and_false, false_or]
  constructor
  · intro h
    obtain ⟨n, _, rfl, _, _, h, hlen, _, _, ⟨padding, hp, rfl⟩, rfl, rfl⟩ := h
    obtain ⟨indices, hn, rfl, hc⟩ := (reads_times (decodes_classRef entries)).mp h
    refine ⟨indices, padding, hn ▸ n.toNat_lt, by simp [counted, hn], ?_, hc⟩
    rw [List.length_append, length_counted_indexBytes, hp, hn]
    omega
  · intro h
    obtain ⟨indices, padding, hn, rfl, rfl, hc⟩ := h
    have hl : (UInt16.ofNat indices.length).toNat = indices.length := UInt16.toNat_ofNat_of_lt hn
    have hlen : (counted indexBytes indices ++ padding).length = 2 + 2 * indices.length + padding.length := by
      rw [List.length_append, length_counted_indexBytes]
    refine ⟨UInt16.ofNat indices.length, _, ?_, names, padding ++ rest,
      (reads_times (decodes_classRef entries)).mpr ⟨indices, hl.symm, rfl, hc⟩, ?_, (), rest,
      ⟨padding, ?_, rfl⟩, rfl, rfl⟩
    · simp [counted, hl]
    · omega
    · omega

/-- What is known of a member with one more attribute. -/
def Attributes.add (found meaning : Attributes) : Attributes :=
  ⟨meaning.constant.or found.constant, found.exceptions ++ meaning.exceptions⟩

/-- The bytes of an attribute, as they are read. -/
theorem attribute_bytes (index : UInt16) {length : UInt32} {info : Bytes} (rest : Bytes)
    (hl : info.length = length.toNat) :
    bigEndian 2 index.toNat ++ (bigEndian 4 length.toNat ++ (info ++ rest)) =
      RawAttribute.bytes ⟨index, info, hl ▸ length.toNat_lt⟩ ++ rest := by
  simp only [RawAttribute.bytes, indexBytes, hl, List.append_assoc]

theorem reads_readAttribute {entries : List Constant} {found found' : Attributes} {bytes rest : Bytes} :
    Reads (readAttribute (poolOf entries) found) bytes found' rest ↔
      ∃ raw meaning, bytes = RawAttribute.bytes raw ++ rest ∧ raw.Means entries meaning ∧
        found' = found.add meaning := by
  simp only [readAttribute, reads_bind, reads_word16, reads_word32, reads_lift, utf8_poolOf, value_poolOf,
    reads_ite, reads_skip, reads_pure, reads_readExceptions]
  constructor
  · intro h
    rcases h with ⟨index, _, rfl, name, _, ⟨ht, rfl⟩, length, _, rfl,
      ⟨⟨rfl, h2⟩, value, _, rfl, _, _, ⟨hv, rfl⟩, rfl, rfl⟩ |
      ⟨hnc, ⟨rfl, _, _, ⟨indices, padding, hn, rfl, hl, hc⟩, rfl, rfl⟩ |
        ⟨hne, _, _, ⟨info, hl, rfl⟩, rfl, rfl⟩⟩⟩
    · have hl : (indexBytes value).length = length.toNat := (length_indexBytes value).trans h2.symm
      exact ⟨_, _, attribute_bytes _ _ hl, .constant ht rfl hv, by simp [Attributes.add]⟩
    · exact ⟨_, _, attribute_bytes _ _ hl, .exceptions ht hn rfl hc, by simp [Attributes.add]⟩
    · refine ⟨_, _, attribute_bytes _ _ hl, .other ht hne ?_, by simp [Attributes.add]⟩
      simpa [hl] using hnc
  · intro h
    obtain ⟨⟨index, info, hfits⟩, meaning, rfl, hm, rfl⟩ := h
    have hl : (UInt32.ofNat info.length).toNat = info.length := UInt32.toNat_ofNat_of_lt hfits
    have hb := (attribute_bytes index rest hl.symm).symm
    cases hm with
    | @constant value _ ht hinfo hv =>
      refine ⟨index, _, hb, _, _, ⟨ht, rfl⟩, _, _, rfl,
        Or.inl ⟨⟨rfl, ?_⟩, value, rest, ?_, _, _, ⟨hv, rfl⟩, ?_, rfl⟩⟩
      · rw [hl]
        exact (congrArg List.length hinfo).trans (length_indexBytes value)
      · exact congrArg (· ++ rest) hinfo
      · simp [Attributes.add]
    | @exceptions indices names padding ht hn hinfo hc =>
      refine ⟨index, _, hb, _, _, ⟨ht, rfl⟩, _, _, rfl, Or.inr ⟨by simp, Or.inl ⟨rfl, names, rest,
        ⟨indices, padding, hn, congrArg (· ++ rest) hinfo, ?_, hc⟩, ?_, rfl⟩⟩⟩
      · rw [hl]
        exact (congrArg List.length hinfo).symm
      · simp [Attributes.add]
    | other ht hne hnc =>
      refine ⟨index, _, hb, _, _, ⟨ht, rfl⟩, _, _, rfl, Or.inr ⟨?_, Or.inr ⟨hne, (), rest, ⟨info, hl.symm, rfl⟩,
        ?_, rfl⟩⟩⟩
      · rwa [hl]
      · simp [Attributes.add]

/-- The last of some values and earlier ones: a later value hides an earlier one. -/
theorem getLast?_filterMap_cons {μ ν : Type} (f : μ → Option ν) (first : μ) (rest : List μ) (found : Option ν) :
    ((first :: rest).filterMap f).getLast?.or found = (rest.filterMap f).getLast?.or ((f first).or found) := by
  rcases hf : f first with _ | value
  · rw [List.filterMap_cons_none hf]; rfl
  · rw [List.filterMap_cons_some hf, List.getLast?_cons]
    rcases (rest.filterMap f).getLast? <;> rfl

theorem foldl_or (sources : List (Option String)) (found : Option String) :
    sources.foldl (fun found source => source.or found) found =
      (sources.filterMap id).getLast?.or found := by
  induction sources generalizing found with
  | nil => rfl
  | cons source rest ih => rw [List.foldl_cons, ih, getLast?_filterMap_cons]; rfl

theorem foldl_add (meanings : List Attributes) (found : Attributes) :
    meanings.foldl Attributes.add found =
      ⟨(meanings.filterMap Attributes.constant).getLast?.or found.constant,
        found.exceptions ++ meanings.flatMap Attributes.exceptions⟩ := by
  induction meanings generalizing found with
  | nil => simp
  | cons meaning rest ih =>
    rw [List.foldl_cons, ih, getLast?_filterMap_cons, List.flatMap_cons, ← List.append_assoc]
    rfl

/-- The attributes of a member after their number; the last constant value counts, exceptions add up. -/
theorem reads_memberAttributes {entries : List Constant} {bytes rest : Bytes} {found : Attributes} :
    (∃ (n : UInt16) (mid : Bytes), bytes = bigEndian 2 n.toNat ++ mid ∧
        Reads (readAttributes (poolOf entries) n.toNat {}) mid found rest) ↔
      ∃ raws, raws.length < 2 ^ 16 ∧ bytes = counted RawAttribute.bytes raws ++ rest ∧
        ∃ meanings, List.Forall₂ (RawAttribute.Means entries) raws meanings ∧
          found = ⟨(meanings.filterMap Attributes.constant).getLast?, meanings.flatMap Attributes.exceptions⟩ := by
  have hloop : ∀ {n : Nat} {found found' : Attributes} {bytes rest : Bytes},
      Reads (readAttributes (poolOf entries) n found) bytes found' rest ↔ _ :=
    reads_loop (fun _ => rfl) (fun _ _ => rfl) (fun _ _ _ _ => reads_readAttribute)
  simp only [hloop, foldl_add, Option.or_none, List.nil_append]
  exact counted_iff

theorem decodes_readMember (entries : List Constant) :
    Decodes (readMember (poolOf entries)) RawMember.bytes (RawMember.Resolves entries) := by
  intro bytes m rest
  simp only [readMember, reads_bind, reads_word16, reads_lift, utf8_poolOf, reads_pure]
  constructor
  · intro h
    obtain ⟨flags, _, rfl, index, _, rfl, name, _, ⟨hname, rfl⟩, index', _, rfl, descriptor, _, ⟨hdesc, rfl⟩,
      n, _, rfl, found, _, ra, rfl, rfl⟩ := h
    obtain ⟨raws, hn, ea, meanings, hm, rfl⟩ := reads_memberAttributes.mp ⟨n, _, rfl, ra⟩
    refine ⟨⟨flags, index, index', raws, hn⟩, ?_, rfl, hname, hdesc, meanings, hm, rfl, rfl⟩
    simp only [RawMember.bytes, indexBytes, List.append_assoc, ea]
  · intro h
    obtain ⟨raw, rfl, h⟩ := h
    obtain ⟨meanings, hm, hconst, hexc⟩ := h.attributes
    obtain ⟨n, _, ea, ra⟩ := reads_memberAttributes.mpr ⟨_, raw.fits, rfl, meanings, hm, rfl⟩
    refine ⟨raw.flags, _, ?_, raw.name, _, rfl, m.name, _, ⟨h.name, rfl⟩, raw.descriptor, _, rfl, m.descriptor, _,
      ⟨h.descriptor, rfl⟩, n, _, ea, _, rest, ra, ?_, rfl⟩
    · simp only [RawMember.bytes, indexBytes, List.append_assoc]
    · rw [← h.flags, ← hconst, ← hexc]

/-! ## The whole class -/

theorem reads_readClassAttribute {entries : List Constant} {found found' : Option String} {bytes rest : Bytes} :
    Reads (readClassAttribute (poolOf entries) found) bytes found' rest ↔
      ∃ raw source, bytes = RawAttribute.bytes raw ++ rest ∧ raw.NamesSource entries source ∧
        found' = source.or found := by
  simp only [readClassAttribute, reads_bind, reads_word16, reads_word32, reads_lift, utf8_poolOf, reads_ite,
    reads_skip, reads_pure]
  constructor
  · intro h
    rcases h with ⟨index, _, rfl, name, _, ⟨ht, rfl⟩, length, _, rfl,
      ⟨⟨rfl, h2⟩, value, _, rfl, _, _, ⟨hv, rfl⟩, rfl, rfl⟩ | ⟨hns, _, _, ⟨info, hl, rfl⟩, rfl, rfl⟩⟩
    · have hl : (indexBytes value).length = length.toNat := (length_indexBytes value).trans h2.symm
      exact ⟨_, _, attribute_bytes _ _ hl, .sourceFile ht rfl hv, rfl⟩
    · refine ⟨_, _, attribute_bytes _ _ hl, .other ht ?_, rfl⟩
      simpa [hl] using hns
  · intro h
    obtain ⟨⟨index, info, hfits⟩, source, rfl, hs, rfl⟩ := h
    have hl : (UInt32.ofNat info.length).toNat = info.length := UInt32.toNat_ofNat_of_lt hfits
    have hb := (attribute_bytes index rest hl.symm).symm
    cases hs with
    | @sourceFile value _ ht hinfo hv =>
      refine ⟨index, _, hb, _, _, ⟨ht, rfl⟩, _, _, rfl,
        Or.inl ⟨⟨rfl, ?_⟩, value, rest, ?_, _, _, ⟨hv, rfl⟩, rfl, rfl⟩⟩
      · rw [hl]
        exact (congrArg List.length hinfo).trans (length_indexBytes value)
      · exact congrArg (· ++ rest) hinfo
    | other ht hns =>
      refine ⟨index, _, hb, _, _, ⟨ht, rfl⟩, _, _, rfl, Or.inr ⟨?_, (), rest, ⟨info, hl.symm, rfl⟩, rfl, rfl⟩⟩
      rwa [hl]

theorem reads_readSuperClass {entries : List Constant} {bytes rest : Bytes} {name : Option String} :
    Reads (readSuperClass (poolOf entries)) bytes name rest ↔
      ∃ index, bytes = indexBytes index ++ rest ∧
        if index = 0 then name = none else ∃ text, HasClass entries index text ∧ name = some text := by
  simp only [readSuperClass, reads_bind, reads_word16, reads_ite, reads_pure, reads_lift, className_poolOf]
  constructor
  · intro h
    rcases h with ⟨index, _, rfl, ⟨h0, rfl, rfl⟩ | ⟨h0, text, _, ⟨hc, rfl⟩, rfl, rfl⟩⟩
    · exact ⟨index, rfl, by rw [if_pos h0]⟩
    · refine ⟨index, rfl, ?_⟩
      rw [if_neg h0]
      exact ⟨text, hc, rfl⟩
  · intro h
    obtain ⟨index, rfl, h⟩ := h
    refine ⟨index, rest, rfl, ?_⟩
    split at h
    · exact Or.inl ⟨‹_›, h.symm, rfl⟩
    · obtain ⟨text, hc, rfl⟩ := h
      exact Or.inr ⟨‹_›, text, rest, ⟨hc, rfl⟩, rfl, rfl⟩

/-- The attributes of the class after their number; the last source file name counts. -/
theorem reads_classAttributes {entries : List Constant} {bytes rest : Bytes} {sourceFile : Option String} :
    (∃ (n : UInt16) (mid : Bytes), bytes = bigEndian 2 n.toNat ++ mid ∧
        Reads (readClassAttributes (poolOf entries) n.toNat none) mid sourceFile rest) ↔
      ∃ raws, raws.length < 2 ^ 16 ∧ bytes = counted RawAttribute.bytes raws ++ rest ∧
        ∃ sources, List.Forall₂ (RawAttribute.NamesSource entries) raws sources ∧
          sourceFile = (sources.filterMap id).getLast? := by
  have hloop : ∀ {n : Nat} {found found' : Option String} {bytes rest : Bytes},
      Reads (readClassAttributes (poolOf entries) n found) bytes found' rest ↔ _ :=
    reads_loop (fun _ => rfl) (fun _ _ => rfl) (fun _ _ _ _ => reads_readClassAttribute)
  simp only [hloop, foldl_or, Option.or_none]
  exact counted_iff

theorem decodes_read : Decodes read RawClass.bytes RawClass.Resolves := by
  intro bytes c rest
  simp only [read, reads_bind, reads_word32, reads_word16, reads_ite, reads_throw, reads_pure, reads_lift,
    reads_readPool, false_and, exists_false, and_false, false_or, Decidable.not_not, ne_eq]
  constructor
  · intro h
    -- the equations between what is left are kept and put together at the end
    obtain ⟨start, _, hb, rfl, minor, _, h1, major, _, h2, pool, _, hpool, flags, _, h3, this, _, h4, thisClass, _,
      hthis, superClass, _, rs, n, _, h5, interfaces, _, ri, k, _, h6, fields, _, rf, l, _, h7, methods, _, rm,
      j, _, h8, sourceFile, _, ra, hc, hrest⟩ := h
    obtain ⟨pool, hp, rfl⟩ := hpool
    obtain ⟨hthis, h9⟩ := hthis
    obtain ⟨super, es, hsuper⟩ := reads_readSuperClass.mp rs
    obtain ⟨rawInterfaces, hin, ei, hi⟩ := (reads_counted (decodes_classRef _)).mp ⟨n, _, h5, ri⟩
    obtain ⟨rawFields, hfn, ef, hf⟩ := (reads_counted (decodes_readMember _)).mp ⟨k, _, h6, rf⟩
    obtain ⟨rawMethods, hmn, em, hm⟩ := (reads_counted (decodes_readMember _)).mp ⟨l, _, h7, rm⟩
    obtain ⟨raws, hsn, ea, hs⟩ := reads_classAttributes.mp ⟨j, _, h8, ra⟩
    subst hc
    refine ⟨⟨minor, major, pool, flags, this, super, rawInterfaces, rawFields, rawMethods, raws,
      hin, hfn, hmn, hsn⟩, ?_, rfl, rfl, rfl, className_poolOf.mp hthis, hsuper, hi, hf, hm, hs⟩
    simp only [RawClass.bytes, indexBytes, List.append_assoc, hb, h1, h2, hp, h3, h4, h9, es, ei, ef, em, ea,
      hrest]
  · intro h
    obtain ⟨raw, rfl, h⟩ := h
    obtain ⟨j, _, es, hs⟩ := reads_classAttributes.mpr ⟨_, raw.attributesFit, rfl, h.sourceFile⟩
    obtain ⟨l, _, em, hm⟩ := (reads_counted (decodes_readMember _)).mpr ⟨_, raw.methodsFit, rfl, h.methods⟩
    obtain ⟨k, _, ef, hf⟩ := (reads_counted (decodes_readMember _)).mpr ⟨_, raw.fieldsFit, rfl, h.fields⟩
    obtain ⟨n, _, ei, hi⟩ := (reads_counted (decodes_classRef _)).mpr ⟨_, raw.interfacesFit, rfl, h.interfaces⟩
    refine ⟨magic, _, ?_, rfl, raw.minorVersion, _, rfl, raw.majorVersion, _, rfl, _, _, ⟨raw.pool, rfl, rfl⟩,
      raw.flags, _, rfl, raw.thisClass, _, rfl, c.thisClass, _, ⟨className_poolOf.mpr h.thisClass, rfl⟩,
      c.superClass, _, reads_readSuperClass.mpr ⟨raw.superClass, rfl, h.superClass⟩, n, _, ei, c.interfaces, _, hi,
      k, _, ef, c.fields, _, hf, l, _, em, c.methods, _, hm, j, _, es, c.sourceFile, rest, hs, ?_, rfl⟩
    · simp only [RawClass.bytes, indexBytes, List.append_assoc]
    · rw [← h.minorVersion, ← h.majorVersion, ← h.flags]

/-- Bytes give a declaration exactly when they are those of a raw class, perhaps followed by others, and
the declaration is the one that the raw class stands for. -/
theorem parse_eq_ok_iff (bytes : Bytes) (c : ClassFile) :
    parse bytes = .ok c ↔
      ∃ (raw : RawClass) (trailing : Bytes), bytes = raw.bytes ++ trailing ∧ raw.Resolves c := by
  have hparse : parse bytes = .ok c ↔ ∃ trailing, Reads read bytes c trailing := by
    unfold parse Reads
    rcases read.run bytes with e | ⟨c', rest⟩ <;> simp [Except.map]
  rw [hparse]
  constructor
  · intro h
    obtain ⟨trailing, h⟩ := h
    obtain ⟨raw, e, hr⟩ := (decodes_read _ _ _).mp h
    exact ⟨raw, trailing, e, hr⟩
  · intro h
    obtain ⟨raw, trailing, e, hr⟩ := h
    exact ⟨trailing, (decodes_read _ _ _).mpr ⟨raw, e, hr⟩⟩

end ClassFile

end SourceJar
