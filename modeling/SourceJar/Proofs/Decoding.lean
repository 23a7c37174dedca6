import Mathlib
import SourceJar.Text.Utf8

/-!
Bytes of texts.

- `decode?_encode`: the bytes of a text are read as that text, so no two texts have the same bytes.
- `byte_mem_encode`: a byte below `0x80` stands among the bytes of a text exactly if its character is in
  the text.
- `char_mem_of_decode?`: a character below `0x80` is only read where its byte stands.
- `isSome_decode?_append`: a byte below `0x80` parts well-formed bytes.
- `decode?_eq_some_iff`: only the bytes of a text are read as that text.
-/

namespace SourceJar.Utf8

/-! ## Reading what was written -/

theorem toNat_ofNat_of_lt {n : Nat} (h : n < 256) : (UInt8.ofNat n).toNat = n := by
  rw [UInt8.toNat_ofNat', Nat.mod_eq_of_lt h]

/-- The last byte of a character completes it. -/
theorem unitsFrom_last {low high : UInt8} {value m : Nat} (hm : m < 256) (hl : low.toNat ≤ m) (hh : m ≤ high.toNat)
    (rest : Bytes) : unitsFrom (.inside 1 low high value) (UInt8.ofNat m :: rest) =
      some (Char.ofNat (value * 64 + (m - 0x80))) :: unitsFrom .start rest := by
  simp only [unitsFrom, step, UInt8.le_iff_toNat_le, toNat_ofNat_of_lt hm, hl, hh, and_self, if_true]
  rfl

/-- Any byte before the last takes the automaton one byte further. -/
theorem unitsFrom_more {missing : Nat} {low high : UInt8} {value m : Nat} (hm : m < 256) (hl : low.toNat ≤ m)
    (hh : m ≤ high.toNat) (rest : Bytes) :
    unitsFrom (.inside (missing + 2) low high value) (UInt8.ofNat m :: rest) =
      unitsFrom (.inside (missing + 1) 0x80 0xBF (value * 64 + (m - 0x80))) rest := by
  simp only [unitsFrom, step, UInt8.le_iff_toNat_le, toNat_ofNat_of_lt hm, hl, hh, and_self, if_true,
    if_neg (show ¬ missing + 2 ≤ 1 by omega)]
  rfl

/-- The bytes of a character, by its code point. -/
theorem encodeChar_eq (c : Char) : String.utf8EncodeChar c =
    if c.toNat ≤ 127 then [UInt8.ofNat c.toNat] else
    if c.toNat ≤ 2047 then [UInt8.ofNat (c.toNat / 64 % 32 + 192), UInt8.ofNat (c.toNat % 64 + 128)] else
    if c.toNat ≤ 65535 then [UInt8.ofNat (c.toNat / 4096 % 16 + 224), UInt8.ofNat (c.toNat / 64 % 64 + 128),
      UInt8.ofNat (c.toNat % 64 + 128)] else
    [UInt8.ofNat (c.toNat / 262144 % 8 + 240), UInt8.ofNat (c.toNat / 4096 % 64 + 128),
      UInt8.ofNat (c.toNat / 64 % 64 + 128), UInt8.ofNat (c.toNat % 64 + 128)] :=
  String.utf8EncodeChar.eq_1 c

/-- The first of two bytes. -/
theorem lead_two {n : Nat} (hn : 0xC2 ≤ n ∧ n < 0xE0) :
    lead (UInt8.ofNat n) = ([], .inside 1 0x80 0xBF (n - 0xC0)) := by
  simp only [lead, toNat_ofNat_of_lt (show n < 256 by omega)]
  rw [if_neg (by omega), if_neg (by omega), if_pos (by omega)]

/-- The first of three bytes, and the range of the second one. -/
theorem lead_three {n : Nat} (hn : 0xE0 ≤ n ∧ n < 0xF0) :
    ∃ low high, lead (UInt8.ofNat n) = ([], .inside 2 low high (n - 0xE0)) ∧ ∀ m, low.toNat ≤ m ∧ m ≤ high.toNat ↔
      (0x80 ≤ m ∧ m < 0xC0) ∧ (n = 0xE0 → 0xA0 ≤ m) ∧ (n = 0xED → m < 0xA0) := by
  simp only [lead, toNat_ofNat_of_lt (show n < 256 by omega)]
  rw [if_neg (by omega), if_neg (by omega), if_neg (by omega)]
  by_cases h1 : n = 0xE0
  · rw [if_pos h1, h1]
    refine ⟨0xA0, 0xBF, rfl, fun m => ?_⟩
    change 0xA0 ≤ m ∧ m ≤ 0xBF ↔ _
    omega
  · rw [if_neg h1]
    by_cases h2 : n = 0xED
    · rw [if_pos h2, h2]
      refine ⟨0x80, 0x9F, rfl, fun m => ?_⟩
      change 0x80 ≤ m ∧ m ≤ 0x9F ↔ _
      omega
    · rw [if_neg h2, if_pos hn.2]
      refine ⟨0x80, 0xBF, rfl, fun m => ?_⟩
      change 0x80 ≤ m ∧ m ≤ 0xBF ↔ _
      omega

/-- The first of four bytes, and the range of the second one. -/
theorem lead_four {n : Nat} (hn : 0xF0 ≤ n ∧ n < 0xF5) :
    ∃ low high, lead (UInt8.ofNat n) = ([], .inside 3 low high (n - 0xF0)) ∧ ∀ m, low.toNat ≤ m ∧ m ≤ high.toNat ↔
      (0x80 ≤ m ∧ m < 0xC0) ∧ (n = 0xF0 → 0x90 ≤ m) ∧ (n = 0xF4 → m < 0x90) := by
  simp only [lead, toNat_ofNat_of_lt (show n < 256 by omega)]
  rw [if_neg (by omega), if_neg (by omega), if_neg (by omega), if_neg (by omega), if_neg (by omega),
    if_neg (by omega)]
  by_cases h1 : n = 0xF0
  · rw [if_pos h1, h1]
    refine ⟨0x90, 0xBF, rfl, fun m => ?_⟩
    change 0x90 ≤ m ∧ m ≤ 0xBF ↔ _
    omega
  · rw [if_neg h1]
    by_cases h2 : n < 0xF4
    · rw [if_pos h2]
      refine ⟨0x80, 0xBF, rfl, fun m => ?_⟩
      change 0x80 ≤ m ∧ m ≤ 0xBF ↔ _
      omega
    · have h3 : n = 0xF4 := by omega
      rw [if_neg h2, if_pos h3, h3]
      refine ⟨0x80, 0x8F, rfl, fun m => ?_⟩
      change 0x80 ≤ m ∧ m ≤ 0x8F ↔ _
      omega

theorem unitsFrom_two {n m : Nat} (hn : 0xC2 ≤ n ∧ n < 0xE0) (hm : 0x80 ≤ m ∧ m < 0xC0) (rest : Bytes) :
    unitsFrom .start (UInt8.ofNat n :: UInt8.ofNat m :: rest) =
      some (Char.ofNat ((n - 0xC0) * 64 + (m - 0x80))) :: unitsFrom .start rest := by
  rw [unitsFrom, step, lead_two hn]
  exact unitsFrom_last (by omega) hm.1 (Nat.le_of_lt_succ hm.2) rest

theorem unitsFrom_three {n m k : Nat} (hn : 0xE0 ≤ n ∧ n < 0xF0) (hm : 0x80 ≤ m ∧ m < 0xC0)
    (hlow : n = 0xE0 → 0xA0 ≤ m) (hhigh : n = 0xED → m < 0xA0) (hk : 0x80 ≤ k ∧ k < 0xC0) (rest : Bytes) :
    unitsFrom .start (UInt8.ofNat n :: UInt8.ofNat m :: UInt8.ofNat k :: rest) =
      some (Char.ofNat (((n - 0xE0) * 64 + (m - 0x80)) * 64 + (k - 0x80))) :: unitsFrom .start rest := by
  obtain ⟨low, high, hl, hrange⟩ := lead_three hn
  obtain ⟨h1, h2⟩ := (hrange m).mpr ⟨hm, hlow, hhigh⟩
  rw [unitsFrom, step, hl]
  refine (unitsFrom_more (by omega) h1 h2 _).trans ?_
  exact unitsFrom_last (by omega) hk.1 (Nat.le_of_lt_succ hk.2) rest

theorem unitsFrom_four {n m k j : Nat} (hn : 0xF0 ≤ n ∧ n < 0xF5) (hm : 0x80 ≤ m ∧ m < 0xC0)
    (hlow : n = 0xF0 → 0x90 ≤ m) (hhigh : n = 0xF4 → m < 0x90) (hk : 0x80 ≤ k ∧ k < 0xC0)
    (hj : 0x80 ≤ j ∧ j < 0xC0) (rest : Bytes) :
    unitsFrom .start (UInt8.ofNat n :: UInt8.ofNat m :: UInt8.ofNat k :: UInt8.ofNat j :: rest) =
      some (Char.ofNat ((((n - 0xF0) * 64 + (m - 0x80)) * 64 + (k - 0x80)) * 64 + (j - 0x80))) ::
        unitsFrom .start rest := by
  obtain ⟨low, high, hl, hrange⟩ := lead_four hn
  obtain ⟨h1, h2⟩ := (hrange m).mpr ⟨hm, hlow, hhigh⟩
  rw [unitsFrom, step, hl]
  refine (unitsFrom_more (by omega) h1 h2 _).trans ?_
  refine (unitsFrom_more (by omega) hk.1 (Nat.le_of_lt_succ hk.2) _).trans ?_
  exact unitsFrom_last (by omega) hj.1 (Nat.le_of_lt_succ hj.2) rest

/-- The bytes of a character are read as that character, whatever follows. -/
theorem unitsFrom_encodeChar (c : Char) (rest : Bytes) :
    unitsFrom .start (String.utf8EncodeChar c ++ rest) = some c :: unitsFrom .start rest := by
  have hv : c.toNat < 55296 ∨ 57343 < c.toNat ∧ c.toNat < 1114112 := c.valid
  have hc := Char.ofNat_toNat c
  rw [encodeChar_eq]
  generalize c.toNat = v at hv hc
  by_cases h1 : v ≤ 127
  · rw [if_pos h1]
    have hl : lead (UInt8.ofNat v) = ([some c], .start) := by
      simp only [lead, toNat_ofNat_of_lt (show v < 256 by omega), hc, if_pos (show v < 0x80 by omega)]
    rw [List.singleton_append, unitsFrom, step, hl]
    rfl
  · rw [if_neg h1]
    by_cases h2 : v ≤ 2047
    · rw [if_pos h2]
      refine (unitsFrom_two (by omega) (by omega) rest).trans ?_
      rw [show (v / 64 % 32 + 192 - 0xC0) * 64 + (v % 64 + 128 - 0x80) = v by omega, hc]
    · rw [if_neg h2]
      by_cases h3 : v ≤ 65535
      · rw [if_pos h3]
        refine (unitsFrom_three (by omega) (by omega) (by omega) (by omega) (by omega) rest).trans ?_
        rw [show ((v / 4096 % 16 + 224 - 0xE0) * 64 + (v / 64 % 64 + 128 - 0x80)) * 64 + (v % 64 + 128 - 0x80) = v
          by omega, hc]
      · rw [if_neg h3]
        refine (unitsFrom_four (by omega) (by omega) (by omega) (by omega) (by omega) (by omega) rest).trans ?_
        rw [show (((v / 262144 % 8 + 240 - 0xF0) * 64 + (v / 4096 % 64 + 128 - 0x80)) * 64 +
          (v / 64 % 64 + 128 - 0x80)) * 64 + (v % 64 + 128 - 0x80) = v by omega, hc]

theorem units_flatMap_encodeChar (text : List Char) :
    units (text.flatMap String.utf8EncodeChar) = text.map some := by
  induction text with
  | nil => rfl
  | cons c rest ih => exact (unitsFrom_encodeChar c _).trans (congrArg (some c :: ·) ih)

theorem mapM_id_map_some {α : Type} (items : List α) : (items.map some).mapM id = some items := by
  induction items with
  | nil => rfl
  | cons first rest ih => simp [ih]

/-- The bytes of a text are read as that text. -/
theorem decode?_encode (text : String) : decode? (encode text) = some text := by
  rw [decode?, encode, units_flatMap_encodeChar, mapM_id_map_some]
  simp

theorem encode_injective {text text' : String} (h : encode text = encode text') : text = text' := by
  have := decode?_encode text
  rw [h, decode?_encode] at this
  exact (Option.some.inj this).symm

/-! ## Bytes of single characters -/

theorem toNat_charOfNat {n : Nat} (h : n.isValidChar) : (Char.ofNat n).toNat = n := by
  simp only [Char.ofNat, h, dif_pos]
  simp [Char.ofNatAux, Char.toNat]

/-- A byte below `0x80` is a character of its own. -/
theorem byte_mem_encodeChar {b : UInt8} (hb : b < 0x80) (c : Char) :
    b ∈ String.utf8EncodeChar c ↔ c.toNat = b.toNat := by
  have hb' : b.toNat < 128 := UInt8.lt_iff_toNat_lt.mp hb
  have hmem : ∀ n < 256, (b = UInt8.ofNat n ↔ b.toNat = n) := fun n hn => by
    rw [← UInt8.toNat_inj, toNat_ofNat_of_lt hn]
  rw [encodeChar_eq]
  generalize c.toNat = v
  split_ifs with h1 h2 h3
  · rw [List.mem_singleton, hmem _ (by omega)]
    exact eq_comm
  all_goals
    simp only [List.mem_cons, List.not_mem_nil, or_false]
    rw [hmem _ (by omega), hmem _ (by omega)]
    try rw [hmem _ (by omega)]
    try rw [hmem _ (by omega)]
    omega

/-- A byte below `0x80` stands among the bytes of a text exactly if its character is in the text. -/
theorem byte_mem_encode {b : UInt8} (hb : b < 0x80) (text : String) :
    b ∈ encode text ↔ Char.ofNat b.toNat ∈ text.toList := by
  have hb' : b.toNat < 128 := UInt8.lt_iff_toNat_lt.mp hb
  have hn : (Char.ofNat b.toNat).toNat = b.toNat := toNat_charOfNat (Or.inl (by omega))
  simp only [encode, List.mem_flatMap, byte_mem_encodeChar hb]
  constructor
  · rintro ⟨c, hc, e⟩
    rw [← e, Char.ofNat_toNat]
    exact hc
  · exact fun h => ⟨_, h, hn⟩

/-- What an automaton inside a character completes is a character from `0x80` on. -/
def Wide : State → Prop
  | .start => True
  | .inside missing low _ value => 2 ≤ value ∨ 2 ≤ missing ∧ 2 ≤ value * 64 + (low.toNat - 0x80)

/-- A unit that is a character below `0x80` is the character of a byte. -/
def OfByte (b : UInt8) (unit : Option Char) : Prop :=
  ∀ c, unit = some c → 0 < c.toNat → c.toNat < 0x80 → b.toNat = c.toNat

theorem ofByte_charOfNat {b : UInt8} {n : Nat} (h : n < 0x80 → b.toNat = n) : OfByte b (some (Char.ofNat n)) := by
  intro c hc hpos hlt
  obtain rfl := Option.some.inj hc
  by_cases hv : n.isValidChar
  · rw [toNat_charOfNat hv] at hlt ⊢
    exact h hlt
  · rw [Char.ofNat, dif_neg hv] at hpos
    exact absurd hpos (by decide)

/-- The first byte of a character is one unit, or the start of one that is read on. -/
theorem lead_cases (b : UInt8) :
    (∃ unit, lead b = ([unit], .start) ∧ OfByte b unit) ∨
      ∃ missing low high value, lead b = ([], .inside missing low high value) ∧
        Wide (.inside missing low high value) := by
  have hb := b.toNat_lt
  have hnone : OfByte b none := fun c h => by cases h
  generalize he : lead b = e
  simp only [lead] at he
  by_cases h1 : b.toNat < 0x80
  · rw [if_pos h1] at he
    exact .inl ⟨_, he.symm, ofByte_charOfNat fun _ => rfl⟩
  rw [if_neg h1] at he
  by_cases h2 : b.toNat < 0xC2
  · rw [if_pos h2] at he
    exact .inl ⟨_, he.symm, hnone⟩
  rw [if_neg h2] at he
  refine (em (b.toNat < 0xF5)).symm.imp (fun h => ?_) fun h => ?_
  · rw [if_neg (by omega), if_neg (by omega), if_neg (by omega), if_neg (by omega), if_neg (by omega),
      if_neg (by omega), if_neg (by omega)] at he
    exact ⟨_, he.symm, hnone⟩
  by_cases h3 : b.toNat < 0xE0
  · rw [if_pos h3] at he
    exact ⟨_, _, _, _, he.symm, .inl (by omega)⟩
  rw [if_neg h3] at he
  by_cases h4 : b.toNat = 0xE0
  · rw [if_pos h4] at he
    exact ⟨_, _, _, _, he.symm, .inr ⟨Nat.le_refl 2, by decide⟩⟩
  rw [if_neg h4] at he
  by_cases h5 : b.toNat = 0xED
  · rw [if_pos h5] at he
    exact ⟨_, _, _, _, he.symm, .inl (by decide)⟩
  rw [if_neg h5] at he
  by_cases h6 : b.toNat < 0xF0
  · rw [if_pos h6] at he
    exact ⟨_, _, _, _, he.symm, .inr ⟨Nat.le_refl 2, by omega⟩⟩
  rw [if_neg h6] at he
  by_cases h7 : b.toNat = 0xF0
  · rw [if_pos h7] at he
    exact ⟨_, _, _, _, he.symm, .inr ⟨by decide, by decide⟩⟩
  rw [if_neg h7] at he
  by_cases h8 : b.toNat < 0xF4
  · rw [if_pos h8] at he
    exact ⟨_, _, _, _, he.symm, .inr ⟨by decide, by omega⟩⟩
  · rw [if_neg h8, if_pos (by omega)] at he
    exact ⟨_, _, _, _, he.symm, .inl (by decide)⟩

theorem lead_wide (b : UInt8) : Wide (lead b).2 ∧ ∀ unit ∈ (lead b).1, OfByte b unit := by
  rcases lead_cases b with ⟨unit, he, hu⟩ | ⟨missing, low, high, value, he, hw⟩ <;> rw [he]
  · exact ⟨trivial, by simpa using hu⟩
  · exact ⟨hw, by simp⟩

theorem step_wide {s : State} (hs : Wide s) (b : UInt8) :
    Wide (step s b).2 ∧ ∀ unit ∈ (step s b).1, OfByte b unit := by
  cases s with
  | start => exact lead_wide b
  | inside missing low high value =>
    simp only [step]
    split_ifs with h1 h2
    · have hl : low.toNat ≤ b.toNat := UInt8.le_iff_toNat_le.mp h1.1
      refine ⟨trivial, ?_⟩
      have hv : 2 ≤ value := by rcases hs with h | h <;> omega
      simpa using ofByte_charOfNat fun hlt => by omega
    · have hl : low.toNat ≤ b.toNat := UInt8.le_iff_toNat_le.mp h1.1
      refine ⟨Or.inl ?_, by simp⟩
      rcases hs with h | h <;> omega
    · refine ⟨(lead_wide b).1, fun unit hu => ?_⟩
      rcases List.mem_cons.mp hu with rfl | hu
      · simp [OfByte]
      · exact (lead_wide b).2 unit hu

theorem byte_mem_of_unitsFrom {s : State} (hs : Wide s) {bytes : Bytes} {c : Char}
    (h : some c ∈ unitsFrom s bytes) (hpos : 0 < c.toNat) (hlt : c.toNat < 0x80) :
    ∃ b ∈ bytes, b.toNat = c.toNat := by
  induction bytes generalizing s with
  | nil => cases s <;> simp [unitsFrom, finish] at h
  | cons b rest ih =>
    obtain ⟨hnext, hunits⟩ := step_wide hs b
    rcases List.mem_append.mp h with h | h
    · exact ⟨b, List.mem_cons_self, hunits _ h c rfl hpos hlt⟩
    · obtain ⟨b', hb', e⟩ := ih hnext h
      exact ⟨b', List.mem_cons_of_mem _ hb', e⟩

theorem mem_of_mapM_id {α : Type} {items : List (Option α)} {values : List α} (h : items.mapM id = some values) :
    items = values.map some := by
  induction items generalizing values with
  | nil => cases h; rfl
  | cons first rest ih =>
    cases first with
    | none => simp at h
    | some value =>
      simp only [List.mapM_cons, id_eq, Option.bind_eq_bind, Option.bind_some] at h
      cases hr : rest.mapM id with
      | none => simp [hr] at h
      | some others =>
        simp only [hr, Option.bind_some, Option.pure_def, Option.some.injEq] at h
        subst h
        rw [List.map_cons, ih hr]

/-- The units of bytes that are read as a text are its characters. -/
theorem units_of_decode? {bytes : Bytes} {text : String} (h : decode? bytes = some text) :
    units bytes = text.toList.map some := by
  obtain ⟨chars, hc, rfl⟩ := Option.map_eq_some_iff.mp h
  rw [String.toList_ofList]
  exact mem_of_mapM_id hc

/-- A character below `0x80` is only read where its byte stands. -/
theorem char_mem_of_decode? {bytes : Bytes} {text : String} (h : decode? bytes = some text) {c : Char}
    (hc : c ∈ text.toList) (hpos : 0 < c.toNat) (hlt : c.toNat < 0x80) : ∃ b ∈ bytes, b.toNat = c.toNat := by
  refine byte_mem_of_unitsFrom (s := .start) trivial ?_ hpos hlt
  rw [← units, units_of_decode? h]
  exact List.mem_map_of_mem hc

theorem unitsFrom_ne_nil (s : State) (bytes : Bytes) (h : s ≠ .start ∨ bytes ≠ []) : unitsFrom s bytes ≠ [] := by
  induction bytes generalizing s with
  | nil => cases s <;> simp_all [unitsFrom, finish]
  | cons b rest ih =>
    rw [unitsFrom]
    intro hn
    obtain ⟨h1, h2⟩ := List.append_eq_nil_iff.mp hn
    refine ih _ (Or.inl fun hs => ?_) h2
    -- a byte that completes nothing leaves the automaton inside a character
    cases s with
    | start =>
      rw [step] at h1 hs
      rcases lead_cases b with ⟨unit, he, -⟩ | ⟨missing, low, high, value, he, -⟩ <;> rw [he] at h1 hs
      · cases h1
      · cases hs
    | inside missing low high value =>
      simp only [step] at h1 hs
      split_ifs at h1 hs

/-- Only the empty row of bytes is read as the empty text. -/
theorem decode?_eq_empty {bytes : Bytes} (h : decode? bytes = some "") : bytes = [] := by
  apply Classical.byContradiction
  intro hb
  exact unitsFrom_ne_nil .start bytes (Or.inr hb) (units_of_decode? h)

/-! ## Bytes on both sides of a character -/

/-- An automaton inside a character waits for a byte from `0x80` on. -/
def Waits : State → Prop
  | .start => True
  | .inside _ low _ _ => 0x80 ≤ low

theorem lead_waits (b : UInt8) : Waits (lead b).2 := by
  unfold lead
  simp only
  split_ifs <;> simp [Waits]

theorem step_waits (s : State) (b : UInt8) : Waits (step s b).2 := by
  cases s with
  | start => exact lead_waits b
  | inside missing low high value =>
    simp only [step]
    split_ifs
    · trivial
    · exact UInt8.le_refl _
    · exact lead_waits b

theorem lead_ascii {b : UInt8} (hb : b < 0x80) : lead b = ([some (Char.ofNat b.toNat)], .start) :=
  if_pos (UInt8.lt_iff_toNat_lt.mp hb)

/-- A byte below `0x80` ends whatever is read before it, as the end of the bytes does. -/
theorem unitsFrom_append {s : State} (hs : Waits s) (front back : Bytes) {b : UInt8} (hb : b < 0x80) :
    unitsFrom s (front ++ b :: back) = unitsFrom s front ++ some (Char.ofNat b.toNat) :: units back := by
  induction front generalizing s with
  | nil =>
    cases s with
    | start =>
      have hstep : step .start b = ([some (Char.ofNat b.toNat)], .start) := lead_ascii hb
      rw [List.nil_append, unitsFrom, unitsFrom, hstep]
      rfl
    | inside missing low high value =>
      have hlow : ¬(low ≤ b ∧ b ≤ high) := fun h => absurd (UInt8.le_trans hs h.1) (UInt8.not_le.mpr hb)
      have hstep : step (.inside missing low high value) b = ([none, some (Char.ofNat b.toNat)], .start) := by
        simp only [step, if_neg hlow, lead_ascii hb]
      rw [List.nil_append, unitsFrom, unitsFrom, hstep]
      rfl
  | cons first rest ih => rw [List.cons_append, unitsFrom, ih (step_waits s first), unitsFrom, List.append_assoc]

/-- Bytes are read as a text exactly if no run of them is ill-formed. -/
theorem isSome_decode?_iff {bytes : Bytes} : (decode? bytes).isSome = true ↔ none ∉ units bytes := by
  constructor
  · intro h
    obtain ⟨text, ht⟩ := Option.isSome_iff_exists.mp h
    rw [units_of_decode? ht]
    simp
  · intro h
    rw [decode?, Option.isSome_map]
    generalize units bytes = items at h
    induction items with
    | nil => rfl
    | cons first rest ih =>
      rw [List.mem_cons, not_or] at h
      obtain ⟨c, rfl⟩ := Option.ne_none_iff_exists'.mp (Ne.symm h.1)
      obtain ⟨values, hvalues⟩ := Option.isSome_iff_exists.mp (ih h.2)
      rw [List.mapM_cons, id_eq, hvalues]
      rfl

theorem isSome_decode?_append (front back : Bytes) {b : UInt8} (hb : b < 0x80) :
    (decode? (front ++ b :: back)).isSome = true ↔ (decode? front).isSome = true ∧ (decode? back).isSome = true := by
  have hunits : units (front ++ b :: back) = units front ++ some (Char.ofNat b.toNat) :: units back :=
    unitsFrom_append (s := .start) trivial front back hb
  rw [isSome_decode?_iff, isSome_decode?_iff, isSome_decode?_iff, hunits]
  simp

/-! ## Bytes that are read -/

/-- A character that is not broken off goes on with a byte in range. -/
theorem exists_next {missing value : Nat} {low high : UInt8} {bytes : Bytes}
    (h : none ∉ unitsFrom (.inside missing low high value) bytes) :
    ∃ m rest, bytes = UInt8.ofNat m :: rest ∧ m < 256 ∧ low.toNat ≤ m ∧ m ≤ high.toNat := by
  cases bytes with
  | nil => exact absurd List.mem_cons_self h
  | cons b rest =>
    refine ⟨b.toNat, rest, by rw [UInt8.ofNat_toNat], b.toNat_lt, ?_⟩
    refine Classical.byContradiction fun hrange => h ?_
    have hout : ¬(low ≤ b ∧ b ≤ high) := by rwa [UInt8.le_iff_toNat_le, UInt8.le_iff_toNat_le]
    rw [unitsFrom, step, if_neg hout]
    exact List.mem_append_left _ List.mem_cons_self

theorem encodeChar_ofNat {v : Nat} (hv : v.isValidChar) : String.utf8EncodeChar (Char.ofNat v) =
    if v ≤ 127 then [UInt8.ofNat v] else
    if v ≤ 2047 then [UInt8.ofNat (v / 64 % 32 + 192), UInt8.ofNat (v % 64 + 128)] else
    if v ≤ 65535 then [UInt8.ofNat (v / 4096 % 16 + 224), UInt8.ofNat (v / 64 % 64 + 128),
      UInt8.ofNat (v % 64 + 128)] else
    [UInt8.ofNat (v / 262144 % 8 + 240), UInt8.ofNat (v / 4096 % 64 + 128), UInt8.ofNat (v / 64 % 64 + 128),
      UInt8.ofNat (v % 64 + 128)] := by
  rw [encodeChar_eq, toNat_charOfNat hv]

/-- Well-formed bytes begin with those of a character. -/
theorem exists_encodeChar {bytes : Bytes} (hne : bytes ≠ []) (h : none ∉ units bytes) :
    ∃ c rest, bytes = String.utf8EncodeChar c ++ rest := by
  obtain ⟨b, rest, rfl⟩ := List.exists_cons_of_ne_nil hne
  obtain ⟨n, hn, rfl⟩ : ∃ n < 256, b = UInt8.ofNat n := ⟨b.toNat, b.toNat_lt, by rw [UInt8.ofNat_toNat]⟩
  rw [units, unitsFrom, step] at h
  -- the lead byte says how many bytes follow, and each of them must be in range
  by_cases h1 : n < 0x80
  · refine ⟨Char.ofNat n, rest, ?_⟩
    rw [encodeChar_ofNat (Or.inl (by omega)), if_pos (by omega)]
    rfl
  by_cases h2 : 0xC2 ≤ n ∧ n < 0xE0
  · rw [lead_two h2] at h
    obtain ⟨m, rest, rfl, -, hlow, hhigh⟩ := exists_next h
    have hm : 0x80 ≤ m ∧ m ≤ 0xBF := ⟨hlow, hhigh⟩
    refine ⟨Char.ofNat ((n - 0xC0) * 64 + (m - 0x80)), rest, ?_⟩
    rw [encodeChar_ofNat (Or.inl (by omega)), if_neg (by omega), if_pos (by omega)]
    rw [show ((n - 0xC0) * 64 + (m - 0x80)) / 64 % 32 + 192 = n by omega,
      show ((n - 0xC0) * 64 + (m - 0x80)) % 64 + 128 = m by omega]
    rfl
  by_cases h3 : 0xE0 ≤ n ∧ n < 0xF0
  · obtain ⟨low, high, hl, hrange⟩ := lead_three h3
    rw [hl] at h
    obtain ⟨m, rest, rfl, hm, hsecond⟩ := exists_next h
    rw [List.nil_append, unitsFrom_more hm hsecond.1 hsecond.2] at h
    obtain ⟨k, rest, rfl, -, hlow, hhigh⟩ := exists_next h
    have hk : 0x80 ≤ k ∧ k ≤ 0xBF := ⟨hlow, hhigh⟩
    obtain ⟨hm, hleast, hmost⟩ := (hrange m).mp hsecond
    refine ⟨Char.ofNat (((n - 0xE0) * 64 + (m - 0x80)) * 64 + (k - 0x80)), rest, ?_⟩
    rw [encodeChar_ofNat (by unfold Nat.isValidChar; omega), if_neg (by omega), if_neg (by omega), if_pos (by omega)]
    rw [show (((n - 0xE0) * 64 + (m - 0x80)) * 64 + (k - 0x80)) / 4096 % 16 + 224 = n by omega,
      show (((n - 0xE0) * 64 + (m - 0x80)) * 64 + (k - 0x80)) / 64 % 64 + 128 = m by omega,
      show (((n - 0xE0) * 64 + (m - 0x80)) * 64 + (k - 0x80)) % 64 + 128 = k by omega]
    rfl
  by_cases h4 : 0xF0 ≤ n ∧ n < 0xF5
  · obtain ⟨low, high, hl, hrange⟩ := lead_four h4
    rw [hl] at h
    obtain ⟨m, rest, rfl, hm, hsecond⟩ := exists_next h
    rw [List.nil_append, unitsFrom_more hm hsecond.1 hsecond.2] at h
    obtain ⟨k, rest, rfl, hk, hthird⟩ := exists_next h
    rw [unitsFrom_more hk hthird.1 hthird.2] at h
    obtain ⟨j, rest, rfl, -, hlow, hhigh⟩ := exists_next h
    have hj : 0x80 ≤ j ∧ j ≤ 0xBF := ⟨hlow, hhigh⟩
    have hk : 0x80 ≤ k ∧ k ≤ 0xBF := hthird
    obtain ⟨hm, hleast, hmost⟩ := (hrange m).mp hsecond
    refine ⟨Char.ofNat ((((n - 0xF0) * 64 + (m - 0x80)) * 64 + (k - 0x80)) * 64 + (j - 0x80)), rest, ?_⟩
    rw [encodeChar_ofNat (by unfold Nat.isValidChar; omega), if_neg (by omega), if_neg (by omega), if_neg (by omega)]
    rw [show ((((n - 0xF0) * 64 + (m - 0x80)) * 64 + (k - 0x80)) * 64 + (j - 0x80)) / 262144 % 8 + 240 = n by omega,
      show ((((n - 0xF0) * 64 + (m - 0x80)) * 64 + (k - 0x80)) * 64 + (j - 0x80)) / 4096 % 64 + 128 = m by omega,
      show ((((n - 0xF0) * 64 + (m - 0x80)) * 64 + (k - 0x80)) * 64 + (j - 0x80)) / 64 % 64 + 128 = k by omega,
      show ((((n - 0xF0) * 64 + (m - 0x80)) * 64 + (k - 0x80)) * 64 + (j - 0x80)) % 64 + 128 = j by omega]
    rfl
  · have hl : lead (UInt8.ofNat n) = ([none], .start) := by
      simp only [lead, toNat_ofNat_of_lt hn, if_neg h1]
      by_cases h5 : n < 0xC2
      · rw [if_pos h5]
      · rw [if_neg h5, if_neg (by omega), if_neg (by omega), if_neg (by omega), if_neg (by omega), if_neg (by omega),
          if_neg (by omega), if_neg (by omega)]
    rw [hl] at h
    exact absurd List.mem_cons_self h

theorem exists_text {bytes : Bytes} (h : none ∉ units bytes) :
    ∃ text : List Char, bytes = text.flatMap String.utf8EncodeChar := by
  -- a character has at least one byte, so the induction is on the number of bytes
  induction hlength : bytes.length using Nat.strongRecOn generalizing bytes with
  | ind n ih =>
    by_cases hne : bytes = []
    · exact ⟨[], hne⟩
    · obtain ⟨c, rest, rfl⟩ := exists_encodeChar hne h
      have hunits : units (String.utf8EncodeChar c ++ rest) = some c :: units rest := unitsFrom_encodeChar c rest
      rw [hunits, List.mem_cons, not_or] at h
      have hpos : 0 < (String.utf8EncodeChar c).length := by
        rw [String.length_utf8EncodeChar]
        exact c.utf8Size_pos
      rw [List.length_append] at hlength
      obtain ⟨text, rfl⟩ := ih rest.length (by omega) h.2 rfl
      exact ⟨c :: text, rfl⟩

/-- Bytes are read as a text exactly if they are its bytes. -/
theorem decode?_eq_some_iff {bytes : Bytes} {text : String} : decode? bytes = some text ↔ bytes = encode text := by
  constructor
  · intro h
    obtain ⟨chars, rfl⟩ := exists_text (isSome_decode?_iff.mp (Option.isSome_of_eq_some h))
    have hencode : chars.flatMap String.utf8EncodeChar = encode (String.ofList chars) := by
      rw [encode, String.toList_ofList]
    rw [hencode, decode?_encode] at h
    rw [hencode, Option.some.inj h]
  · rintro rfl
    exact decode?_encode text

end SourceJar.Utf8
