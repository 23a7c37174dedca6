import SourceJar.Proofs.PathNames

/-!
What operations change.

Between two file systems that differ at one place, well-formedness carries over if the place hangs in a
directory and nothing hangs in it (`WellFormed.changesAt`). While a job works the file system only grows:
everything that was there is kept, and all that has come is directories and scratch files (`Grown`).
Each operation that a job performs is one of the two, or undoes one.

- `makeDirectories_grown`: making directories.
- `makeFresh_eq_ok`: what is made with a new name stands where nothing stood.
- `closeTree`: growth below a new directory is undone with the directory.
- `moveFile_eq_ok`: a file that is moved ends up where the path leads without it.
-/

namespace SourceJar.FileSystem

/-- The content of the regular file at a place. -/
def fileAt? (fs : FileSystem) (place : Place) : Option Bytes :=
  match fs.get? place with
  | some (.file content) => some content
  | _ => none

/-! ## A change at one place -/

/-- Two file systems differ at one place at most. -/
structure ChangesAt (place : Place) (fs fs' : FileSystem) : Prop where
  workingDirectory : fs'.workingDirectory = fs.workingDirectory
  temporaryDirectory : fs'.temporaryDirectory = fs.temporaryDirectory
  elsewhere : ∀ other, other ≠ place → fs'.get? other = fs.get? other

theorem ChangesAt.trans {place : Place} {fs fs' fs'' : FileSystem} (h : ChangesAt place fs fs')
    (h' : ChangesAt place fs' fs'') : ChangesAt place fs fs'' where
  workingDirectory := h'.workingDirectory.trans h.workingDirectory
  temporaryDirectory := h'.temporaryDirectory.trans h.temporaryDirectory
  elsewhere other ho := (h'.elsewhere other ho).trans (h.elsewhere other ho)

theorem changesAt_put (fs : FileSystem) (place : Place) (node : Inode) : ChangesAt place fs (fs.put place node) where
  workingDirectory := rfl
  temporaryDirectory := rfl
  elsewhere other ho := by
    unfold get? put
    simp only [lookup_setPair, if_neg ho]

theorem changesAt_erase (fs : FileSystem) (place : Place) : ChangesAt place fs (fs.erase place) where
  workingDirectory := rfl
  temporaryDirectory := rfl
  elsewhere other ho := by
    unfold get? erase
    simp only [lookup_filter_ne, if_neg ho]

theorem get?_put_self (fs : FileSystem) {place : Place} (hp : place ≠ []) (node : Inode) :
    (fs.put place node).get? place = some node := by
  rw [get?_put _ _ _ _ hp, if_pos rfl]

theorem get?_erase_self (fs : FileSystem) {place : Place} (hp : place ≠ []) : (fs.erase place).get? place = none := by
  rw [get?_erase _ _ _ hp, if_pos rfl]

/-- A place where something else than a directory stands, or nothing, is not the root. -/
theorem ne_nil_of_get?_ne {fs : FileSystem} {place : Place} (h : fs.get? place ≠ some .directory) : place ≠ [] := by
  rintro rfl
  exact h fs.get?_nil

/-- A place where nothing stands is not the root. -/
theorem ne_nil_of_free {fs : FileSystem} {place : Place} (h : fs.get? place = none) : place ≠ [] := by
  rintro rfl
  rw [get?_nil] at h
  cases h

/-- What stands at a place may change if nothing can hang in it and it hangs in a directory. -/
theorem WellFormed.changesAt {fs fs' : FileSystem} (hfs : fs.WellFormed) {place : Place} (hc : ChangesAt place fs fs')
    (hn : fs.get? place ≠ some .directory) (hp : fs'.get? place ≠ none → fs.get? place.dropLast = some .directory) :
    fs'.WellFormed := by
  have kept : ∀ other, fs.get? other = some .directory → fs'.get? other = some .directory := fun other ho => by
    rw [hc.elsewhere other fun e => hn (e ▸ ho), ho]
  constructor
  · intro above name h
    by_cases e : above ++ [name] = place
    · rw [e] at h
      have := hp h
      rw [← e, List.dropLast_concat] at this
      exact kept _ this
    · rw [hc.elsewhere _ e] at h
      exact kept _ (hfs.parent h)
  · rw [hc.workingDirectory]
    exact kept _ hfs.working
  · rw [hc.workingDirectory]
    exact hfs.workingNames

theorem WellFormed.put {fs : FileSystem} (hfs : fs.WellFormed) {directory : Place} {name : Bytes}
    (hd : fs.get? directory = some .directory) (hn : fs.get? (directory ++ [name]) ≠ some .directory) (node : Inode) :
    (fs.put (directory ++ [name]) node).WellFormed := by
  refine hfs.changesAt (changesAt_put _ _ _) hn fun _ => ?_
  rwa [List.dropLast_concat]

theorem WellFormed.erase {fs : FileSystem} (hfs : fs.WellFormed) {place : Place}
    (hn : fs.get? place ≠ some .directory) : (fs.erase place).WellFormed := by
  refine hfs.changesAt (changesAt_erase _ _) hn fun h => ?_
  exact absurd (get?_erase_self fs (ne_nil_of_get?_ne hn)) h

/-- A file system is well-formed if each node hangs in a directory. -/
theorem WellFormed.of_nodes {fs : FileSystem}
    (hn : ∀ pair ∈ fs.nodes, fs.get? pair.1.dropLast = some .directory)
    (hw : fs.get? fs.workingDirectory = some .directory)
    (hs : ∀ name ∈ fs.workingDirectory, IsName name ∧ IsSegment name) : fs.WellFormed where
  working := hw
  workingNames := hs
  parent {place name} h := by
    have hne : place ++ [name] ≠ [] := by simp
    obtain ⟨node, hl⟩ := Option.ne_none_iff_exists'.mp h
    rw [get?, if_neg hne] at hl
    obtain ⟨front, back, e, -⟩ := List.lookup_eq_some_iff.mp hl
    have := hn (place ++ [name], node) (by rw [e]; simp)
    rwa [List.dropLast_concat] at this

/-! ## Growth -/

/-- Nothing was taken away or changed, and what has come is directories, or files at scratch places. -/
structure Grown (scratch : Place → Prop) (fs fs' : FileSystem) : Prop where
  workingDirectory : fs'.workingDirectory = fs.workingDirectory
  temporaryDirectory : fs'.temporaryDirectory = fs.temporaryDirectory
  kept : ∀ place node, fs.get? place = some node → fs'.get? place = some node
  added : ∀ place node, fs'.get? place = some node →
    fs.get? place = some node ∨ node = .directory ∨ scratch place ∧ ∃ content, node = .file content

/-- No place is a scratch place. -/
def NoScratch : Place → Prop := fun _ => False

theorem Grown.refl (scratch : Place → Prop) (fs : FileSystem) : Grown scratch fs fs where
  workingDirectory := rfl
  temporaryDirectory := rfl
  kept _ _ h := h
  added _ _ h := Or.inl h

section Growth

variable {scratch : Place → Prop} {fs fs' fs'' : FileSystem} {place : Place}

theorem Grown.trans (h : Grown scratch fs fs') (h' : Grown scratch fs' fs'') : Grown scratch fs fs'' where
  workingDirectory := h'.workingDirectory.trans h.workingDirectory
  temporaryDirectory := h'.temporaryDirectory.trans h.temporaryDirectory
  kept place node hg := h'.kept place node (h.kept place node hg)
  added place node hg := by
    rcases h'.added place node hg with hg | hg
    · exact h.added place node hg
    · exact Or.inr hg

/-- Growth without scratch files leaves all files alone. -/
theorem Grown.fileAt?_eq (h : Grown NoScratch fs fs') (place : Place) : fs'.fileAt? place = fs.fileAt? place := by
  unfold fileAt?
  cases hg : fs.get? place with
  | some node => rw [h.kept place node hg]
  | none =>
    cases hg' : fs'.get? place with
    | none => rfl
    | some node =>
      rcases h.added place node hg' with hn | rfl | ⟨hf, -⟩
      · rw [hg] at hn; cases hn
      · rfl
      · exact hf.elim

/-- A directory is made where nothing was. -/
theorem grown_put_directory (hn : fs.get? place = none) : Grown scratch fs (fs.put place .directory) where
  workingDirectory := rfl
  temporaryDirectory := rfl
  kept other node hg := by
    have ho : other ≠ place := fun e => by rw [e, hn] at hg; cases hg
    rw [(changesAt_put fs place _).elsewhere other ho, hg]
  added other node hg := by
    by_cases e : other = place
    · rw [e, get?_put_self fs (ne_nil_of_free hn)] at hg
      exact Or.inr (Or.inl (Option.some.inj hg).symm)
    · rw [(changesAt_put fs place _).elsewhere other e] at hg
      exact Or.inl hg

/-- A scratch file may come, change and go. -/
theorem Grown.changesAt (h : Grown scratch fs fs') (hs : scratch place) (hn : fs.get? place = none)
    (hc : ChangesAt place fs' fs'') (hf : ∀ node, fs''.get? place = some node → ∃ content, node = .file content) :
    Grown scratch fs fs'' where
  workingDirectory := hc.workingDirectory.trans h.workingDirectory
  temporaryDirectory := hc.temporaryDirectory.trans h.temporaryDirectory
  kept other node hg := by
    rw [hc.elsewhere other fun e => by rw [e, hn] at hg; cases hg]
    exact h.kept other node hg
  added other node hg := by
    by_cases e : other = place
    · rw [e] at hg ⊢
      exact Or.inr (Or.inr ⟨hs, hf node hg⟩)
    · rw [hc.elsewhere other e] at hg
      exact h.added other node hg

/-- A file that was there at first can be taken away at the end. -/
theorem Grown.takenAway (hn : fs.get? place = none) {content : Bytes} (hc : ChangesAt place fs' fs'')
    (he : fs''.get? place = none) (h : Grown scratch (fs.put place (.file content)) fs') : Grown scratch fs fs'' where
  workingDirectory := hc.workingDirectory.trans h.workingDirectory
  temporaryDirectory := hc.temporaryDirectory.trans h.temporaryDirectory
  kept other node hg := by
    have ho : other ≠ place := fun e => by rw [e, hn] at hg; cases hg
    rw [hc.elsewhere other ho]
    refine h.kept other node ?_
    rw [(changesAt_put fs place _).elsewhere other ho, hg]
  added other node hg := by
    have ho : other ≠ place := fun e => by rw [e, he] at hg; cases hg
    rw [hc.elsewhere other ho] at hg
    rcases h.added other node hg with hg | hg
    · rw [(changesAt_put fs place _).elsewhere other ho] at hg
      exact Or.inl hg
    · exact Or.inr hg

end Growth

/-! ## Making directories -/

theorem makeDirectory_eq_ok {fs fs' : FileSystem} {p : Path} (h : fs.makeDirectory p = .ok fs') :
    ∃ place slash, fs.locate false p = .ok (.free place slash) ∧ fs' = fs.put place .directory := by
  unfold makeDirectory at h
  cases hl : fs.locate false p with
  | error e => rw [hl] at h; cases h
  | ok spot =>
    rw [hl] at h
    cases spot with
    | taken => cases h
    | free place slash => exact ⟨place, slash, rfl, (Except.ok.inj h).symm⟩

section MakingDirectories

variable {motive : FileSystem → Prop}

theorem makeDirectoryAfter_keeps {p : Path} (hp : ∀ fs fs', motive fs → fs.makeDirectory p = .ok fs' → motive fs')
    {above : FileSystem → FileSystem × Except IoFault Unit} (ha : ∀ fs, motive fs → motive (above fs).1)
    {fs : FileSystem} (h : motive fs) : motive (makeDirectoryAfter above p fs).1 := by
  simp only [makeDirectoryAfter]
  split
  · exact hp _ _ h ‹_›
  · have hup := ha fs h
    split <;> rename_i e <;> rw [e] at hup
    · exact hup
    · split
      · exact hp _ _ hup ‹_›
      · split <;> exact hup
  · split <;> exact h

theorem makeComponents_keeps {components : List Path.Component}
    (hp : ∀ front, front ≠ [] → front <+: components.reverse → ∀ fs fs', motive fs →
      fs.makeDirectory (Path.ofComponents front) = .ok fs' → motive fs') {fs : FileSystem} (h : motive fs) :
    motive (makeComponents components fs).1 := by
  induction components generalizing fs with
  | nil => exact h
  | cons last above ih =>
    refine makeDirectoryAfter_keeps (hp _ (by simp) List.prefix_rfl) (fun fs h => ih (fun front hne hf => ?_) h) h
    refine hp front hne (hf.trans ?_)
    rw [List.reverse_cons]
    exact List.prefix_append _ _

theorem makeComponents_induct (hm : ∀ fs p fs', motive fs → fs.makeDirectory p = .ok fs' → motive fs')
    (components : List Path.Component) : ∀ fs, motive fs → motive (makeComponents components fs).1 :=
  fun _ h => makeComponents_keeps (fun _ _ _ fs fs' hf hp => hm fs _ fs' hf hp) h

/-- What making a directory preserves, making a row of them preserves. -/
theorem makeDirectories_induct (hm : ∀ fs p fs', motive fs → fs.makeDirectory p = .ok fs' → motive fs')
    {fs : FileSystem} (h : motive fs) (p : Path) : motive (fs.makeDirectories p).1 := by
  unfold makeDirectories
  split
  · exact h
  · exact makeDirectoryAfter_keeps (fun fs fs' hf hp => hm fs p fs' hf hp) (makeComponents_induct hm _) h

end MakingDirectories

/-- The place of a spot that a path leads to in a well-formed file system. -/
theorem stands_of_locate {fs : FileSystem} (hfs : fs.WellFormed) {follow : Bool} {p : Path} {spot : Spot}
    (h : fs.locate follow p = .ok spot) : fs.Stands spot := by
  refine (locate_eq_ok_iff.mp h).2.stands hfs ?_
  unfold startOf
  split
  · exact fs.get?_nil
  · exact hfs.working

theorem makeDirectory_grown (scratch : Place → Prop) {fs fs' : FileSystem} (hfs : fs.WellFormed) {p : Path}
    (h : fs.makeDirectory p = .ok fs') : Grown scratch fs fs' ∧ fs'.WellFormed := by
  obtain ⟨place, slash, hl, rfl⟩ := makeDirectory_eq_ok h
  obtain ⟨hn, directory, name, rfl, -, hd⟩ := stands_of_locate hfs hl
  exact ⟨grown_put_directory hn, hfs.put hd (by simp [hn]) _⟩

/-- Making directories adds directories. -/
theorem makeDirectories_grown {fs : FileSystem} (hfs : fs.WellFormed) (scratch : Place → Prop) (p : Path) :
    Grown scratch fs (fs.makeDirectories p).1 ∧ (fs.makeDirectories p).1.WellFormed := by
  refine makeDirectories_induct (motive := fun fs' => Grown scratch fs fs' ∧ fs'.WellFormed) ?_
    ⟨.refl scratch fs, hfs⟩ p
  intro fs' q fs'' h hq
  obtain ⟨hg, hw⟩ := makeDirectory_grown scratch h.2 hq
  exact ⟨h.1.trans hg, hw⟩

/-! ## New names -/

/-- The number that a row of digits spells. -/
def digitsValue (digits : Bytes) : Nat := Nat.ofDigitChars 10 (digits.map fun b => Char.ofNat b.toNat) 0

theorem isDigit_iff {c : Char} : c.isDigit = true ↔ 48 ≤ c.toNat ∧ c.toNat ≤ 57 := by
  simp only [Char.isDigit, Bool.and_eq_true, decide_eq_true_eq, ge_iff_le, UInt32.le_iff_toNat_le]
  rfl

theorem toNat_toUInt8_of_isDigit {c : Char} (h : c.isDigit = true) : c.toUInt8.toNat = c.toNat := by
  have hc := isDigit_iff.mp h
  have : c.toUInt8.toNat = c.toNat % 256 := rfl
  omega

theorem isDigit_of_mem_padded {n : Nat} {c : Char} {pad : Nat} (h : c ∈ List.replicate pad '0' ++ Nat.toDigits 10 n) :
    c.isDigit = true := by
  rcases List.mem_append.mp h with h | h
  · rw [List.eq_of_mem_replicate h]; rfl
  · exact Nat.isDigit_of_mem_toDigits (by decide) (by decide) h

/-- The digits of a number are those of its decimal notation with zeros in front. -/
theorem sixDigits_eq (n : Nat) :
    ∃ pad, sixDigits n = (List.replicate pad '0' ++ Nat.toDigits 10 n).map Char.toUInt8 := by
  refine ⟨6 - ((Nat.toDigits 10 n).map Char.toUInt8).length, ?_⟩
  rw [List.map_append, List.map_replicate]
  rfl

theorem digitsValue_sixDigits (n : Nat) : digitsValue (sixDigits n) = n := by
  obtain ⟨pad, e⟩ := sixDigits_eq n
  have hback : ∀ row : List Char, (∀ c ∈ row, c.isDigit = true) →
      (row.map Char.toUInt8).map (fun b => Char.ofNat b.toNat) = row := by
    intro row hr
    rw [List.map_map]
    refine (List.map_congr_left fun c hc => ?_).trans (List.map_id row)
    simp [toNat_toUInt8_of_isDigit (hr c hc), Char.ofNat_toNat]
  rw [digitsValue, e, hback _ fun c hc => isDigit_of_mem_padded hc, Nat.ofDigitChars_append,
    Nat.ofDigitChars_replicate_zero]
  simp

theorem mem_sixDigits {n : Nat} {b : UInt8} (h : b ∈ sixDigits n) : 48 ≤ b.toNat ∧ b.toNat ≤ 57 := by
  obtain ⟨pad, e⟩ := sixDigits_eq n
  rw [e] at h
  obtain ⟨c, hc, rfl⟩ := List.mem_map.mp h
  have hd := isDigit_of_mem_padded hc
  rw [toNat_toUInt8_of_isDigit hd]
  exact isDigit_iff.mp hd

section Fresh

variable (fs : FileSystem) (directory : Place) (start ending : Bytes)

/-- A new name is one of those tried, and if it is taken all of those tried are. -/
theorem freshName_cases (fuel n : Nat) :
    ∃ k ≤ fuel, fs.freshName directory start ending fuel n = start ++ sixDigits (n + k) ++ ending ∧
      (fs.get? (directory ++ [start ++ sixDigits (n + k) ++ ending]) ≠ none →
        ∀ k ≤ fuel, fs.get? (directory ++ [start ++ sixDigits (n + k) ++ ending]) ≠ none) := by
  induction fuel generalizing n with
  | zero =>
    refine ⟨0, Nat.le_refl 0, rfl, fun h k hk => ?_⟩
    rwa [Nat.le_zero.mp hk]
  | succ fuel ih =>
    simp only [freshName]
    split
    · rename_i hfree
      exact ⟨0, Nat.zero_le _, rfl, fun h => absurd (Option.isNone_iff_eq_none.mp hfree) h⟩
    · rename_i htaken
      obtain ⟨k, hk, e, hall⟩ := ih (n + 1)
      refine ⟨k + 1, Nat.succ_le_succ hk, by rw [e, Nat.add_right_comm, Nat.add_assoc], fun h j hj => ?_⟩
      cases j with
      | zero => exact fun hn => htaken (by rw [Nat.add_zero] at hn; rw [hn]; rfl)
      | succ j =>
        rw [Nat.add_comm j 1, ← Nat.add_assoc]
        refine hall ?_ j (Nat.le_of_succ_le_succ hj)
        rwa [Nat.add_assoc, Nat.add_comm 1 k]

/-- There are more names to try than nodes, so a new name is free. -/
theorem freshName_free :
    fs.get? (directory ++ [fs.freshName directory start ending fs.nodes.length 0]) = none := by
  obtain ⟨k, -, e, hall⟩ := fs.freshName_cases directory start ending fs.nodes.length 0
  rw [e]
  apply Classical.byContradiction
  intro htaken
  have hall := hall htaken
  let tried : List Place :=
    (List.range (fs.nodes.length + 1)).map fun k => directory ++ [start ++ sixDigits k ++ ending]
  have hnodup : tried.Nodup := by
    refine List.Pairwise.map _ ?_ List.nodup_range
    intro a b hab he
    have : sixDigits a = sixDigits b := by simpa using he
    exact hab ((digitsValue_sixDigits a).symm.trans ((congrArg digitsValue this).trans (digitsValue_sixDigits b)))
  have hsub : tried ⊆ fs.nodes.map Prod.fst := by
    intro place hp
    obtain ⟨k, hk, rfl⟩ := List.mem_map.mp hp
    have hk' := hall k (Nat.le_of_lt_succ (List.mem_range.mp hk))
    rw [Nat.zero_add] at hk'
    obtain ⟨node, hl⟩ := Option.ne_none_iff_exists'.mp hk'
    rw [get?, if_neg (by simp)] at hl
    obtain ⟨front, back, e, -⟩ := List.lookup_eq_some_iff.mp hl
    rw [e]
    simp
  have := hnodup.length_le_of_subset hsub
  simp only [tried, List.length_map, List.length_range] at this
  omega

end Fresh

theorem directoryPlace_eq_ok_iff {fs : FileSystem} {p : Path} {place : Place} :
    fs.directoryPlace p = .ok place ↔ fs.locate true p = .ok (.taken place .directory) := by
  unfold directoryPlace
  cases fs.locate true p with
  | error e => simp [bind, Except.bind]
  | ok spot =>
    rcases spot with ⟨other, node⟩ | ⟨other, slash⟩
    · cases node <;> simp [bind, Except.bind]
    · simp [bind, Except.bind]

/-- What is made with a new name stands where nothing stood, in the directory that was asked for. -/
theorem makeFresh_eq_ok {fs fs' : FileSystem} {directory : Path} {start ending : String} {node : Inode} {place : Place}
    (h : fs.makeFresh directory start ending node = .ok (fs', place)) :
    ∃ above number, fs.locate true directory = .ok (.taken above .directory) ∧
      place = above ++ [Utf8.encode start ++ sixDigits number ++ Utf8.encode ending] ∧
      fs.get? place = none ∧ fs' = fs.put place node := by
  unfold makeFresh at h
  cases hd : fs.directoryPlace directory with
  | error e => rw [hd] at h; cases h
  | ok above =>
    rw [hd] at h
    obtain ⟨rfl, rfl⟩ := Prod.mk.inj (Except.ok.inj h)
    obtain ⟨k, -, e, -⟩ := fs.freshName_cases above (Utf8.encode start) (Utf8.encode ending) fs.nodes.length 0
    refine ⟨above, 0 + k, directoryPlace_eq_ok_iff.mp hd, by rw [e], ?_, rfl⟩
    exact fs.freshName_free above (Utf8.encode start) (Utf8.encode ending)

/-! ## Files -/

/-- What is written goes to a file or to a free spot. -/
theorem writeFile_eq_ok {fs fs' : FileSystem} {p : Path} {content : Bytes} (h : fs.writeFile p content = .ok fs') :
    fs' = fs ∨ ∃ spot, fs.locate true p = .ok spot ∧ (∀ node, spot = .taken spot.place node → ∃ old, node = .file old) ∧
      fs' = fs.put spot.place (.file content) := by
  unfold writeFile at h
  split at h
  · cases hl : fs.locate true ⟨(p.bytes.reverse.dropWhile (· == Path.slash)).reverse⟩ <;>
      simp [hl, bind, Except.bind] at h
  · cases hl : fs.locate true p with
    | error e => simp [hl, bind, Except.bind] at h
    | ok spot =>
      rw [hl] at h
      rcases spot with ⟨place, node⟩ | ⟨place, slash⟩
      · cases node with
        | file old =>
          refine Or.inr ⟨_, rfl, fun node e => ?_, (Except.ok.inj h).symm⟩
          cases e
          exact ⟨old, rfl⟩
        | directory => cases h
        | link target => cases h
        | device => exact Or.inl (Except.ok.inj h).symm
      · exact Or.inr ⟨_, rfl, (by intro _ e; cases e), (Except.ok.inj h).symm⟩

theorem removeFile_eq_ok {fs fs' : FileSystem} {p : Path} (h : fs.removeFile p = .ok fs') :
    ∃ place node, fs.locate false p = .ok (.taken place node) ∧ node ≠ .directory ∧ fs' = fs.erase place := by
  unfold removeFile at h
  cases hl : fs.locate false p with
  | error e => simp [hl, bind, Except.bind] at h
  | ok spot =>
    rw [hl] at h
    rcases spot with ⟨place, node⟩ | ⟨place, slash⟩
    · cases node with
      | directory => cases h
      | file content => exact ⟨place, _, rfl, Inode.noConfusion, (Except.ok.inj h).symm⟩
      | link target => exact ⟨place, _, rfl, Inode.noConfusion, (Except.ok.inj h).symm⟩
      | device => exact ⟨place, _, rfl, Inode.noConfusion, (Except.ok.inj h).symm⟩
    · cases h

/-- Without a file that stands where nothing stood, a walk comes to the same end, or to a free spot in
place of the file. -/
theorem Leads.without {fs fs' : FileSystem} {source : Place} {content : Bytes} (hc : ChangesAt source fs fs')
    (hn : fs.get? source = none) (hs : fs'.get? source = some (.file content)) {follow slash : Bool} {links : Nat}
    {here : Place} {names : List Bytes} {spot : Spot} (h : Leads fs' follow links here names slash spot) :
    Leads fs follow links here names slash spot ∨
      spot = .taken source (.file content) ∧ Leads fs follow links here names slash (.free source false) := by
  have back : ∀ place node, fs'.get? place = some node → place ≠ source → fs.get? place = some node :=
    fun place node hg hp => (hc.elsewhere place hp).symm.trans hg
  have other : ∀ place node, fs'.get? place = some node → node ≠ .file content → place ≠ source := by
    rintro place node hg hne rfl
    rw [hs] at hg
    exact hne (Option.some.inj hg).symm
  induction h with
  | here => exact Or.inl (.here _ _ _)
  | stay _ ih => exact ih.imp .stay fun h => ⟨h.1, .stay h.2⟩
  | up _ ih => exact ih.imp .up fun h => ⟨h.1, .up h.2⟩
  | down hname hg _ ih =>
    have hg' := back _ _ hg (other _ _ hg Inode.noConfusion)
    exact ih.imp (.down hname hg') fun h => ⟨h.1, .down hname hg' h.2⟩
  | along hname hg hr _ ih =>
    have hg' := back _ _ hg (other _ _ hg Inode.noConfusion)
    exact ih.imp (.along hname hg' hr) fun h => ⟨h.1, .along hname hg' hr h.2⟩
  | link hname hg hf hsl => exact Or.inl (.link hname (back _ _ hg (other _ _ hg Inode.noConfusion)) hf hsl)
  | @node links here name slash node hname hg hd hl hsl =>
    by_cases e : here ++ [name] = source
    · rw [e, hs] at hg
      obtain rfl := Option.some.inj hg
      obtain rfl : slash = false := by simpa using hsl
      rw [← e] at hn ⊢
      exact Or.inr ⟨rfl, .free hname hn⟩
    · exact Or.inl (.node hname (back _ _ hg e) hd hl hsl)
  | @free links here name slash hname hg =>
    have e : here ++ [name] ≠ source := fun e => by rw [e, hs] at hg; cases hg
    exact Or.inl (.free hname ((hc.elsewhere _ e).symm.trans hg))

/-- The place of a spot hangs in a directory. -/
theorem Stands.directory_above {fs : FileSystem} (hfs : fs.WellFormed) {spot : Spot} (h : fs.Stands spot)
    (hn : fs.get? spot.place ≠ some .directory) : fs.get? spot.place.dropLast = some .directory := by
  rcases spot with ⟨place, node⟩ | ⟨place, slash⟩
  · have hg : fs.get? place = some node := h
    have hp : place ≠ [] := ne_nil_of_get?_ne hn
    have hlast : fs.get? (place.dropLast ++ [place.getLast hp]) ≠ none := by
      rw [List.dropLast_concat_getLast, hg]
      exact Option.some_ne_none node
    exact hfs.parent hlast
  · obtain ⟨-, directory, name, rfl, -, hd⟩ := h
    rwa [Spot.place, List.dropLast_concat]

/-- A new file that is moved ends up where the path leads without it, and nothing else has changed. -/
theorem moveFile_eq_ok {fs fs₁ fs' : FileSystem} (hfs : fs.WellFormed) {source : Place} {content : Bytes} {p : Path}
    (hn : fs.get? source = none) (hd : fs.get? source.dropLast = some .directory) (hc : ChangesAt source fs fs₁)
    (hs : fs₁.get? source = some (.file content)) (h : fs₁.moveFile source p = .ok fs') :
    ∃ spot, fs.locate false p = .ok spot ∧ fs.get? spot.place ≠ some .directory ∧ ChangesAt spot.place fs fs' ∧
      fs'.get? spot.place = some (.file content) ∧ fs'.WellFormed := by
  have hne : source ≠ [] := ne_nil_of_free hn
  have hw : fs₁.WellFormed := hfs.changesAt hc (by simp [hn]) fun _ => hd
  -- without the file nothing but the spot of the path differs
  have hfinal : ∀ place, place ≠ [] → ChangesAt place fs ((fs₁.erase source).put place (.file content)) ∧
      ((fs₁.erase source).put place (.file content)).get? place = some (.file content) := by
    intro place hp
    refine ⟨⟨hc.workingDirectory, hc.temporaryDirectory, fun other ho => ?_⟩, get?_put_self _ hp _⟩
    rw [(changesAt_put _ place _).elsewhere other ho, get?_erase _ _ _ hne]
    split
    · rename_i e; rw [e, hn]
    · rename_i e; exact hc.elsewhere other e
  unfold moveFile at h
  rw [hs] at h
  cases hl : fs₁.locate false p with
  | error e => simp [hl, bind, Except.bind] at h
  | ok spot =>
    rw [hl] at h
    have hstands := stands_of_locate hw hl
    obtain ⟨ha, hleads⟩ := locate_eq_ok_iff.mp hl
    have hstart : fs₁.startOf p = fs.startOf p := by rw [startOf, hc.workingDirectory, ← startOf]
    rw [hstart] at hleads
    rcases hleads.without hc hn hs with hleads' | ⟨rfl, hfree⟩
    · have hl' : fs.locate false p = .ok spot := locate_eq_ok_iff.mpr ⟨ha, hleads'⟩
      have hstands' := stands_of_locate hfs hl'
      have hresult : fs.get? spot.place ≠ some .directory ∧
          fs' = (fs₁.erase source).put spot.place (.file content) := by
        rcases spot with ⟨place, node⟩ | ⟨place, slash⟩
        · have hg : fs.get? place = some node := hstands'
          rw [Spot.place, hg]
          cases node with
          | directory => cases h
          | _ => exact ⟨by simp, (Except.ok.inj h).symm⟩
        · rw [Spot.place, hstands'.1]
          cases slash with
          | true => cases h
          | false => exact ⟨by simp, (Except.ok.inj h).symm⟩
      obtain ⟨hnd, rfl⟩ := hresult
      obtain ⟨hchange, hfile⟩ := hfinal spot.place (ne_nil_of_get?_ne hnd)
      refine ⟨spot, hl', hnd, hchange, hfile, ?_⟩
      exact hfs.changesAt hchange hnd fun _ => hstands'.directory_above hfs hnd
    · obtain rfl := Except.ok.inj h
      obtain ⟨hchange, hfile⟩ := hfinal source hne
      refine ⟨.free source false, locate_eq_ok_iff.mpr ⟨ha, hfree⟩, ?_, hchange, hfile, ?_⟩
      · simp [Spot.place, hn]
      · exact hfs.changesAt hchange (by simp [hn]) fun _ => hd

/-! ## Taking a directory away again -/

theorem lookup_filter_key (keep : Place → Bool) (other : Place) (nodes : List (Place × Inode)) :
    (nodes.filter fun (key, _) => keep key).lookup other = if keep other then nodes.lookup other else none := by
  induction nodes with
  | nil => simp
  | cons head rest ih =>
    obtain ⟨first, node⟩ := head
    by_cases hf : keep first <;> by_cases ho : other = first <;> grind

theorem get?_eraseTree (fs : FileSystem) (place other : Place) :
    (fs.eraseTree place).get? other = if other ≠ [] ∧ place <+: other then none else fs.get? other := by
  unfold get? eraseTree
  by_cases ho : other = []
  · simp [ho]
  · have := lookup_filter_key (fun key => !place.isPrefixOf key) other fs.nodes
    rw [if_neg ho, if_neg ho, this]
    by_cases hp : place <+: other
    · rw [List.isPrefixOf_iff_prefix.mpr hp]; simp [ho, hp]
    · rw [Bool.eq_false_iff.mpr fun e => hp (List.isPrefixOf_iff_prefix.mp e)]; simp [hp]

/-- Whether a place is below another. -/
def Below (top place : Place) : Prop := top <+: place ∧ place ≠ top

/-- Growth below a new directory is undone with the directory. -/
theorem closeTree {fs fs' : FileSystem} (hfs : fs.WellFormed) {top : Place} (hn : fs.get? top = none)
    (h : Grown (Below top) (fs.put top .directory) fs') (hw : fs'.WellFormed) :
    Grown NoScratch fs (fs'.eraseTree top) ∧ (fs'.eraseTree top).WellFormed := by
  have hbefore : ∀ place node, fs.get? place = some node → ¬top <+: place := fun place node hg hp => by
    rw [hfs.none_below hn hp] at hg; cases hg
  have hkeep : ∀ place, ¬top <+: place → (fs'.eraseTree top).get? place = fs'.get? place := fun place hp => by
    rw [get?_eraseTree, if_neg fun e => hp e.2]
  have hput : ∀ place, ¬top <+: place → (fs.put top .directory).get? place = fs.get? place := fun place hp =>
    (changesAt_put fs top _).elsewhere place fun e => hp (e ▸ List.prefix_rfl)
  have hkept : ∀ place node, fs.get? place = some node → (fs'.eraseTree top).get? place = some node := by
    intro place node hg
    have hp := hbefore place node hg
    rw [hkeep place hp]
    exact h.kept place node ((hput place hp).trans hg)
  refine ⟨⟨h.workingDirectory, h.temporaryDirectory, hkept, ?_⟩, ?_⟩
  · intro place node hg
    rw [get?_eraseTree] at hg
    split at hg
    · cases hg
    · rename_i hp
      by_cases he : place = []
      · rw [he, get?_nil] at hg ⊢
        exact Or.inl hg
      · have hp' : ¬top <+: place := fun e => hp ⟨he, e⟩
        rcases h.added place node hg with hg | hg | ⟨hb, -⟩
        · exact Or.inl ((hput place hp').symm.trans hg)
        · exact Or.inr (Or.inl hg)
        · exact absurd hb.1 hp'
  · constructor
    · intro place name hg
      rw [get?_eraseTree] at hg
      split at hg
      · exact absurd rfl hg
      · rename_i hp
        rw [hkeep place fun e => hp ⟨by simp, e.trans (List.prefix_append _ _)⟩]
        exact hw.parent hg
    · have : (fs'.eraseTree top).workingDirectory = fs.workingDirectory := h.workingDirectory
      rw [this]
      exact hkept _ _ hfs.working
    · exact hw.workingNames

end SourceJar.FileSystem
