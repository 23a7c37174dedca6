import SourceJar.Proofs.SkeletonJobs

/-!
The sources of a batch are converted independently of each other.

Two things can make what comes of one source depend on another. The other may have claimed its output
name earlier, and then the source is turned down. Or the conversion of the source may touch the place where the
output of the other is put: on the way to the source itself, or through a link on the way to its output. If the
sources are apart (`Apart`), only the first remains, and each source that is not turned down comes to what it
comes to in a batch of its own.

- `conflictsAfter_cons`: the table of claimed names finds the first source that claims a name.
- `run_induct`: what holds of a whole batch if each source keeps it.
- `resultOf_converted`, `run_converted`: what one source adds to the file system, and what a whole batch does.
- `run_independent`: a batch against the batches of its sources.
-/

namespace SourceJar

open Archive FileSystem

namespace Batch

/-! ## Rivals -/

/-- The first of the earlier sources that claims the output name that a source claims. -/
def rival? (settings : Settings) (earlier : List Path) (source : Path) : Option Path :=
  (claim? settings source).bind fun name => earlier.find? fun other => claim? settings other = some name

theorem claim?_ne_of_rival? {settings : Settings} {earlier : List Path} {source other : Path} {name : String}
    (h : rival? settings earlier source = none) (hm : other ∈ earlier) (hclaim : claim? settings other = some name) :
    claim? settings source ≠ some name := by
  intro e
  rw [rival?, e, Option.bind_some, List.find?_eq_none] at h
  exact h other hm (by simp [hclaim])

/-- A table of claimed names has, for each name, the first source that claims it. -/
def IsTable (settings : Settings) (claimed : List (String × Path)) (earlier : List Path) : Prop :=
  ∀ name, claimed.lookup name = earlier.find? fun other => claim? settings other = some name

/-- The table that is kept of claimed names finds the rival of the next source. -/
theorem conflictsAfter_cons {settings : Settings} {claimed : List (String × Path)} {earlier : List Path}
    (ht : IsTable settings claimed earlier) (source : Path) (rest : List Path) :
    ∃ claimed', conflictsAfter settings claimed (source :: rest) =
        rival? settings earlier source :: conflictsAfter settings claimed' rest ∧
      IsTable settings claimed' (earlier ++ [source]) := by
  rw [conflictsAfter, rival?]
  cases hclaim : claim? settings source with
  | none =>
    refine ⟨claimed, rfl, fun name => ?_⟩
    rw [ht, List.find?_append]
    simp [hclaim]
  | some name =>
    simp only [Option.bind_some, ← ht name]
    cases hl : claimed.lookup name with
    | some first =>
      refine ⟨claimed, rfl, fun other => ?_⟩
      rw [List.find?_append, ← ht other]
      by_cases e : name = other
      · rw [← e, hl]
        rfl
      · simp [hclaim, e]
    | none =>
      refine ⟨(name, source) :: claimed, rfl, fun other => ?_⟩
      rw [List.find?_append, ← ht other, List.lookup_cons]
      by_cases e : name = other
      · rw [← e, hl]
        simp [hclaim]
      · have : (other == name) = false := by simpa using Ne.symm e
        simp [hclaim, e, this]

/-! ## Rows of sources -/

theorem isTable_nil {settings : Settings} : IsTable settings [] [] := fun _ => rfl

/-- A batch whose destination is made deals with its sources one after another. -/
theorem run_made {b : Batch} {fs : FileSystem} (hmade : (fs.makeDirectories b.destination).2 = .ok ())
    (sources : List Path) :
    b.run sources fs = b.runFrom 0 (sources.zip (conflictsAfter b.settings [] sources)) { fs := b.prepared fs } := by
  have hprepared : fs.makeDirectories b.destination = (b.prepared fs, .ok ()) := Prod.ext rfl hmade
  rw [run, hprepared]
  rfl

/-- A batch whose destination cannot be made fails as a whole. -/
theorem run_unmade {b : Batch} {fs : FileSystem} {e : IoFault} (hmade : (fs.makeDirectories b.destination).2 = .error e)
    (sources : List Path) :
    b.run sources fs = (sources.map fun source => ⟨source, .error (.io e)⟩, { fs := b.prepared fs }) := by
  have hprepared : fs.makeDirectories b.destination = (b.prepared fs, .error e) := Prod.ext rfl hmade
  rw [run, hprepared]

section Induction

variable {b : Batch} {sources : List Path} {inv : List Path → FileSystem → Prop}
  {result : List Path → Path → Except Failure ArchiveReport → Prop}
  (hstep : ∀ earlier source rest, earlier ++ source :: rest = sources → ∀ index s, inv earlier s.fs →
    ∃ r s', b.resultOf index source (rival? b.settings earlier source) s = (r, s') ∧ result earlier source r ∧
      inv (earlier ++ [source]) s'.fs)

include hstep in
theorem runFrom_induct {earlier : List Path} {claimed : List (String × Path)} (ht : IsTable b.settings claimed earlier)
    (rest : List Path) (hrest : earlier ++ rest = sources) (index : Nat) {s : State} (h : inv earlier s.fs) :
    (b.runFrom index (rest.zip (conflictsAfter b.settings claimed rest)) s).1.length = rest.length ∧
      (∀ (i : Nat) (source : Path), rest[i]? = some source →
        ∃ r, (b.runFrom index (rest.zip (conflictsAfter b.settings claimed rest)) s).1[i]? = some ⟨source, r⟩ ∧
          result (earlier ++ rest.take i) source r) ∧
      inv sources (b.runFrom index (rest.zip (conflictsAfter b.settings claimed rest)) s).2.fs := by
  induction rest generalizing earlier claimed index s with
  | nil =>
    rw [List.append_nil] at hrest
    exact ⟨rfl, fun i source hi => (by cases hi), hrest ▸ h⟩
  | cons source rest ih =>
    obtain ⟨claimed', hconflicts, ht'⟩ := conflictsAfter_cons ht source rest
    obtain ⟨r, s', hresult, hr, h'⟩ := hstep earlier source rest hrest index s h
    obtain ⟨hlength, houtcomes, hfinal⟩ := ih ht' (by simpa using hrest) (index + 1)
      (s := s'.say index .finished ("Finished " ++ source.display)) h'
    rw [hconflicts, List.zip_cons_cons, runFrom]
    simp only [runSource, hresult]
    refine ⟨congrArg Nat.succ hlength, fun i other hi => ?_, hfinal⟩
    cases i with
    | zero =>
      obtain rfl : source = other := Option.some.inj hi
      exact ⟨r, rfl, by rwa [List.take_zero, List.append_nil]⟩
    | succ i =>
      obtain ⟨r', ho, hr'⟩ := houtcomes i other hi
      exact ⟨r', ho, by simpa using hr'⟩

include hstep in
/-- What each source keeps, if it comes to it after the earlier ones, a whole batch keeps. -/
theorem run_induct {fs : FileSystem} (hmade : (fs.makeDirectories b.destination).2 = .ok ())
    (h : inv [] (b.prepared fs)) :
    (b.run sources fs).1.length = sources.length ∧
      (∀ (i : Nat) (source : Path), sources[i]? = some source →
        ∃ r, (b.run sources fs).1[i]? = some ⟨source, r⟩ ∧ result (sources.take i) source r) ∧
      inv sources (b.run sources fs).2.fs := by
  rw [run_made hmade]
  exact runFrom_induct hstep isTable_nil sources rfl 0 h

end Induction

/-! ## What comes of each source -/

/-- What comes of a source after earlier ones, if it is converted in a file system or turned down. -/
def yield (b : Batch) (fs : FileSystem) (earlier : List Path) (source : Path) :
    Except Failure (ArchiveReport × Place × Bytes) :=
  match rival? b.settings earlier source with
  | some first => .error (conflictFailure b.settings source first)
  | none => b.conversion source fs

/-- One of some sources puts an archive at a place. -/
def Puts (b : Batch) (fs : FileSystem) (sources : List Path) (place : Place) (archive : Bytes) : Prop :=
  ∃ i source report, sources[i]? = some source ∧ b.yield fs (sources.take i) source = .ok (report, place, archive)

/-- The sources of a batch are apart: none is converted from, or to, what is found at or through the place of an output
with another name. -/
def Apart (b : Batch) (fs : FileSystem) (sources : List Path) : Prop :=
  ∀ source ∈ sources, ∀ other ∈ sources, ∀ place ∈ b.outputPlace? fs other,
    b.outputPlace? fs source ≠ some place → place ∉ b.dependencies fs source

theorem apart_iff {b : Batch} {fs : FileSystem} {sources : List Path} :
    b.Apart fs sources ↔
      (sources.all fun source => sources.all fun other => (b.outputPlace? fs other).toList.all fun place =>
        b.outputPlace? fs source == some place || !(b.dependencies fs source).contains place) = true := by
  simp [Apart, or_iff_not_imp_left]

instance (b : Batch) (fs : FileSystem) (sources : List Path) : Decidable (b.Apart fs sources) :=
  decidable_of_iff _ apart_iff.symm

section Rows

variable {b : Batch} {prepared : FileSystem} {earlier : List Path} {source : Path}

theorem yield_eq_ok {report : ArchiveReport} {place : Place} {archive : Bytes}
    (h : b.yield prepared earlier source = .ok (report, place, archive)) :
    rival? b.settings earlier source = none ∧ b.conversion source prepared = .ok (report, place, archive) := by
  unfold yield at h
  split at h
  · cases h
  · exact ⟨‹_›, h⟩

theorem puts_concat {place : Place} {archive : Bytes} :
    b.Puts prepared (earlier ++ [source]) place archive ↔
      b.Puts prepared earlier place archive ∨
        ∃ report, b.yield prepared earlier source = .ok (report, place, archive) := by
  constructor
  · rintro ⟨i, other, report, hi, hy⟩
    rw [List.getElem?_append] at hi
    split at hi
    · rw [List.take_append_of_le_length (Nat.le_of_lt ‹_›)] at hy
      exact .inl ⟨i, other, report, hi, hy⟩
    · have hlt : i - earlier.length < 1 := (List.getElem?_eq_some_iff.mp hi).1
      obtain rfl : i = earlier.length := by omega
      rw [Nat.sub_self] at hi
      obtain rfl : source = other := Option.some.inj hi
      rw [List.take_left] at hy
      exact .inr ⟨report, hy⟩
  · rintro (⟨i, other, report, hi, hy⟩ | ⟨report, hy⟩)
    · have hlt : i < earlier.length := (List.getElem?_eq_some_iff.mp hi).1
      refine ⟨i, other, report, ?_, ?_⟩
      · rw [List.getElem?_append_left hlt, hi]
      · rw [List.take_append_of_le_length (Nat.le_of_lt hlt), hy]
    · exact ⟨earlier.length, source, report, by simp, by rw [List.take_left, hy]⟩

/-- Outputs that go to one place have one name. -/
theorem claim?_eq_of_outputPlace? {fs fs' : FileSystem} {other : Path} {place : Place}
    (h : b.outputPlace? fs source = some place) (h' : b.outputPlace? fs' other = some place) :
    claim? b.settings source = claim? b.settings other := by
  obtain ⟨name, directory, hname, -, rfl⟩ := outputPlace?_eq_some_iff.mp h
  obtain ⟨other', directory', hother, -, e⟩ := outputPlace?_eq_some_iff.mp h'
  have ename : name = other' := Utf8.encode_injective (List.cons.inj (List.append_inj_right' e rfl)).1
  rw [hname, hother, ename]

/-- A source that is not turned down shares its output's place with no earlier one that has an output. -/
theorem outputPlace?_ne {place : Place} {archive : Bytes} (h : b.Puts prepared earlier place archive)
    (hr : rival? b.settings earlier source = none) : b.outputPlace? prepared source ≠ some place := by
  intro hplace
  obtain ⟨i, other, report, hi, hy⟩ := h
  obtain ⟨hplace', -, name, hclaim, -⟩ := conversion_eq_ok (yield_eq_ok hy).2
  exact claim?_ne_of_rival? hr (List.mem_of_getElem? hi) hclaim
    ((claim?_eq_of_outputPlace? hplace hplace').trans hclaim)

/-- No archive is put where a directory stands. -/
theorem Puts.not_directory {place : Place} {archive : Bytes} (h : b.Puts prepared earlier place archive) :
    prepared.get? place ≠ some .directory := by
  obtain ⟨i, other, report, -, hy⟩ := h
  exact (conversion_eq_ok (yield_eq_ok hy).2).2.1

theorem Puts.outputPlace? {place : Place} {archive : Bytes} (h : b.Puts prepared earlier place archive) :
    ∃ other ∈ earlier, b.outputPlace? prepared other = some place := by
  obtain ⟨i, other, report, hi, hy⟩ := h
  exact ⟨other, List.mem_of_getElem? hi, (conversion_eq_ok (yield_eq_ok hy).2).1⟩

/-! ## One source after another -/

/-- What the first sources of a batch have made of the file system that its jobs start in. -/
structure Converted (b : Batch) (prepared : FileSystem) (earlier : List Path) (fs : FileSystem) : Prop where
  wellFormed : fs.WellFormed
  workingDirectory : fs.workingDirectory = prepared.workingDirectory
  archives : ∀ place archive, b.Puts prepared earlier place archive → fs.get? place = some (.file archive)
  elsewhere : ∀ place, (∀ archive, ¬b.Puts prepared earlier place archive) → fs.get? place = prepared.get? place

theorem Converted.nothing (hp : prepared.WellFormed) : b.Converted prepared [] prepared where
  wellFormed := hp
  workingDirectory := rfl
  archives _ _ h := by
    obtain ⟨i, source, report, hi, -⟩ := h
    cases hi
  elsewhere _ _ := rfl

theorem Converted.directories {fs : FileSystem} (h : b.Converted prepared earlier fs) {place : Place}
    (hd : prepared.get? place = some .directory) : fs.get? place = some .directory := by
  rw [h.elsewhere place fun archive hput => hput.not_directory hd, hd]

/-- What the conversion of the next source depends on is as it was at the start. -/
theorem Converted.agrees {sources : List Path} {fs : FileSystem} (ha : b.Apart prepared sources)
    (he : ∀ other ∈ earlier, other ∈ sources) (hm : source ∈ sources)
    (hr : rival? b.settings earlier source = none) (h : b.Converted prepared earlier fs) {place : Place}
    (hp : place ∈ b.dependencies prepared source ∨ b.outputPlace? prepared source = some place) :
    fs.get? place = prepared.get? place := by
  refine h.elsewhere place fun archive hput => ?_
  obtain ⟨other, hother, hplace⟩ := hput.outputPlace?
  have hown := outputPlace?_ne hput hr
  exact hp.elim (ha source hm other (he other hother) place hplace hown) hown

/-- What one more source makes of the file system. -/
theorem Converted.next {fs fs' : FileSystem} (h : b.Converted prepared earlier fs)
    (heffect : Effect fs (b.yield prepared earlier source) fs') :
    b.Converted prepared (earlier ++ [source]) fs' := by
  cases hy : b.yield prepared earlier source with
  | error e =>
    rw [hy] at heffect
    have hputs : ∀ place archive, b.Puts prepared (earlier ++ [source]) place archive ↔
        b.Puts prepared earlier place archive := fun place archive => by simp [puts_concat, hy]
    simp only [Effect] at heffect
    exact {
      wellFormed := heffect.wellFormed h.wellFormed
      workingDirectory := heffect.workingDirectory.trans h.workingDirectory
      archives := fun place archive hput =>
        (heffect.get?_eq place).trans (h.archives place archive ((hputs _ _).mp hput))
      elsewhere := fun place hno =>
        (heffect.get?_eq place).trans (h.elsewhere place fun archive hput => hno archive ((hputs _ _).mpr hput)) }
  | ok delivered =>
    obtain ⟨report, place, archive⟩ := delivered
    rw [hy] at heffect
    obtain ⟨-, hchanges, hcontent, hw⟩ := heffect
    refine ⟨hw, hchanges.workingDirectory.trans h.workingDirectory, ?_, ?_⟩
    · intro place' archive' hput
      rcases puts_concat.mp hput with hput | ⟨report', hy'⟩
      · -- another archive, which stands where it did
        have hne : place' ≠ place := fun e => outputPlace?_ne hput (yield_eq_ok hy).1
          (e ▸ (conversion_eq_ok (yield_eq_ok hy).2).1)
        rw [hchanges.elsewhere place' hne, h.archives place' archive' hput]
      · rw [hy] at hy'
        cases hy'
        exact hcontent
    · intro place' hno
      have hne : place' ≠ place := by
        rintro rfl
        exact hno archive (puts_concat.mpr (.inr ⟨report, hy⟩))
      rw [hchanges.elsewhere place' hne]
      exact h.elsewhere place' fun archive' hput => hno archive' (puts_concat.mpr (.inl hput))

section Run

variable (hk : b.settings.backend.kind = .skeleton) (hstop : b.stopAfter = none)
  (hsuffix : IsSuffix b.settings.output.suffix) {sources : List Path} (hp : prepared.WellFormed)
  (ha : b.Apart prepared sources)

include hk hstop hsuffix hp ha in
/-- What comes of the next source, and what it makes of the file system. -/
theorem resultOf_converted (he : ∀ other ∈ earlier, other ∈ sources) (hm : source ∈ sources) (index : Nat) {s : State}
    (h : b.Converted prepared earlier s.fs) :
    ∃ s', b.resultOf index source (rival? b.settings earlier source) s =
        ((b.yield prepared earlier source).map Prod.fst, s') ∧
      b.Converted prepared (earlier ++ [source]) s'.fs := by
  have hnext : ∀ fs', Effect s.fs (b.yield prepared earlier source) fs' →
      b.Converted prepared (earlier ++ [source]) fs' := fun _ => h.next
  unfold yield at hnext ⊢
  cases hr : rival? b.settings earlier source with
  | some first =>
    rw [hr] at hnext
    exact ⟨s, rfl, hnext s.fs (.refl _)⟩
  | none =>
    rw [hr] at hnext
    obtain ⟨s', hrun, heffect⟩ := runJob_conversion hk hstop hsuffix index source h.wellFormed
    rw [conversion_congr hstop hsuffix hp h.workingDirectory (fun _ => h.directories)
      (fun _ hp => h.agrees ha he hm hr (.inl hp)) (fun _ hp => h.agrees ha he hm hr (.inr hp))] at hrun heffect
    exact ⟨s', hrun, hnext s'.fs heffect⟩

end Run

/-- No two sources that are both converted claim one name. -/
theorem claim?_ne {sources : List Path} {other : Path} {i j : Nat} (hij : i ≠ j) (hi : sources[i]? = some source)
    (hj : sources[j]? = some other) (hr : rival? b.settings (sources.take i) source = none)
    (hr' : rival? b.settings (sources.take j) other = none) {name : String}
    (hclaim : claim? b.settings source = some name) : claim? b.settings other ≠ some name := by
  have hmem : ∀ {i j : Nat} {source : Path}, i < j → sources[i]? = some source → source ∈ sources.take j :=
    fun hlt h => List.mem_of_getElem? ((List.getElem?_take_of_lt hlt).trans h)
  rcases Nat.lt_or_gt_of_ne hij with hlt | hlt
  · exact claim?_ne_of_rival? hr' (hmem hlt hi) hclaim
  · exact fun hclaim' => claim?_ne_of_rival? hr (hmem hlt hj) hclaim' hclaim

theorem Apart.single {fs : FileSystem} {sources : List Path} (ha : b.Apart fs sources) (hm : source ∈ sources) :
    b.Apart fs [source] := by
  intro other ho other' ho'
  rw [List.mem_singleton.mp ho, List.mem_singleton.mp ho']
  exact ha source hm source hm

section Whole

variable (hk : b.settings.backend.kind = .skeleton) (hstop : b.stopAfter = none) {fs : FileSystem}
  (hfs : fs.WellFormed) (hsuffix : IsSuffix b.settings.output.suffix)
  (hmade : (fs.makeDirectories b.destination).2 = .ok ()) {sources : List Path}
  (ha : b.Apart (b.prepared fs) sources)

include hk hstop hfs hsuffix hmade ha

theorem run_converted :
    (∀ i : Nat, (b.run sources fs).1[i]? = sources[i]?.map fun source =>
        Outcome.mk source ((b.yield (b.prepared fs) (sources.take i) source).map Prod.fst)) ∧
      b.Converted (b.prepared fs) sources (b.run sources fs).2.fs := by
  have hp := (makeDirectories_grown hfs NoScratch b.destination).2
  obtain ⟨hlength, houtcomes, hfinal⟩ := @run_induct b sources (b.Converted (b.prepared fs))
    (fun earlier source r => r = (b.yield (b.prepared fs) earlier source).map Prod.fst)
    (fun earlier source rest hrest index s h => by
      subst hrest
      have hsource : source ∈ earlier ++ source :: rest := List.mem_append_right _ List.mem_cons_self
      obtain ⟨s', hresult, h'⟩ := resultOf_converted hk hstop hsuffix hp ha
        (fun other ho => List.mem_append_left _ ho) hsource index h
      exact ⟨_, s', hresult, rfl, h'⟩)
    fs hmade (.nothing hp)
  refine ⟨fun i => ?_, hfinal⟩
  cases hi : sources[i]? with
  | none =>
    rw [List.getElem?_eq_none_iff] at hi
    exact List.getElem?_eq_none (hlength ▸ hi)
  | some source =>
    obtain ⟨r, ho, rfl⟩ := houtcomes i source hi
    exact ho

theorem run_single (source : Path) (hm : source ∈ sources) :
    (b.run [source] fs).1.head? = some ⟨source, (b.conversion source (b.prepared fs)).map Prod.fst⟩ ∧
      ∀ report place archive, b.conversion source (b.prepared fs) = .ok (report, place, archive) →
        (b.run [source] fs).2.fs.get? place = some (.file archive) := by
  obtain ⟨houtcomes, hfinal⟩ := run_converted hk hstop hfs hsuffix hmade (ha.single hm)
  have hyield : b.yield (b.prepared fs) [] source = b.conversion source (b.prepared fs) := by
    unfold yield rival?
    cases claim? b.settings source <;> rfl
  refine ⟨?_, fun report place archive hc => ?_⟩
  · rw [List.head?_eq_getElem?, houtcomes 0]
    simp [hyield]
  · exact hfinal.archives place archive ⟨0, source, report, rfl, by simp [hyield, hc]⟩

/-- A source that a batch reports on was converted. -/
theorem run_reported {i : Nat} {report : ArchiveReport} (h : (b.run sources fs).1[i]? = some ⟨source, .ok report⟩) :
    sources[i]? = some source ∧ rival? b.settings (sources.take i) source = none ∧
      ∃ place archive, b.conversion source (b.prepared fs) = .ok (report, place, archive) := by
  rw [(run_converted hk hstop hfs hsuffix hmade ha).1 i, Option.map_eq_some_iff] at h
  obtain ⟨source', hi, h⟩ := h
  obtain ⟨rfl, h⟩ := Outcome.mk.inj h
  cases hy : b.yield (b.prepared fs) (sources.take i) source' with
  | error e => rw [hy] at h; cases h
  | ok delivered =>
    obtain ⟨report', place, archive⟩ := delivered
    rw [hy] at h
    cases h
    exact ⟨hi, (yield_eq_ok hy).1, place, archive, (yield_eq_ok hy).2⟩

/-- Two outputs of a batch have neither one path nor one place. -/
theorem run_outputs_ne {i j : Nat} {other : Path} {report report' : ArchiveReport} (hij : i ≠ j)
    (h : (b.run sources fs).1[i]? = some ⟨source, .ok report⟩)
    (h' : (b.run sources fs).1[j]? = some ⟨other, .ok report'⟩) :
    report.outputPath ≠ report'.outputPath ∧
      b.outputPlace? (b.prepared fs) source ≠ b.outputPlace? (b.prepared fs) other := by
  obtain ⟨hi, hr, place, archive, hc⟩ := run_reported hk hstop hfs hsuffix hmade ha h
  obtain ⟨hj, hr', place', archive', hc'⟩ := run_reported hk hstop hfs hsuffix hmade ha h'
  obtain ⟨hplace, -, name, hclaim, hpath⟩ := conversion_eq_ok hc
  obtain ⟨hplace', -, name', hclaim', hpath'⟩ := conversion_eq_ok hc'
  have hnames : name ≠ name' := fun e => claim?_ne hij hi hj hr hr' hclaim (e ▸ hclaim')
  constructor
  · intro e
    rw [hpath, hpath'] at e
    exact hnames (Utf8.encode_injective (join_injective (claim?_plain hsuffix hclaim).toIsSegment
      (claim?_plain hsuffix hclaim').toIsSegment e))
  · intro e
    rw [hplace, hplace'] at e
    have eclaim := claim?_eq_of_outputPlace? hplace (e ▸ hplace')
    rw [hclaim, hclaim'] at eclaim
    exact hnames (Option.some.inj eclaim)

end Whole

end Rows

/-- A batch with standard settings but for the extension of archives. -/
def simpleBatch (destination extension : String) : Batch where
  settings := { output := { destination := Path.ofText destination, extensions := [extension] }, jobs := 1 }
  destination := Path.ofText destination
  programs := fun _ _ _ fs => (.error (.os .noEntry), fs)

/-- A file system that holds some nodes, seen from the root. -/
def holding (nodes : List (List String × Inode)) : FileSystem where
  nodes := nodes.map fun (names, node) => (names.map Utf8.encode, node)
  workingDirectory := []
  temporaryDirectory := []

theorem holding_wellFormed {nodes : List (List String × Inode)}
    (h : ∀ pair ∈ (holding nodes).nodes, (holding nodes).get? pair.1.dropLast = some .directory) :
    (holding nodes).WellFormed :=
  WellFormed.of_nodes h rfl fun name h => by cases h

/-- An archive without classes. -/
def simpleArchive : Inode := .file (Zip.encode [⟨"README", []⟩])

theorem simpleBatch_valid {destination extension : String} {fs : FileSystem}
    (h : fs.isFile (Path.ofText destination) = false) :
    (simpleBatch destination extension).settings.validate fs = .ok () := by
  simp [Settings.validate, simpleBatch, h]

/-- No source is the file that the path of an output leads to. -/
def noSourceIsOutput (b : Batch) (fs : FileSystem) (sources : List Path) : Bool :=
  sources.all fun source => (sources.filterMap (claim? b.settings)).all fun name =>
    decide ((fs.locate true source).map Spot.place ≠
      (fs.locate true (b.destination.join (Path.ofText name))).map Spot.place)

/-- The second of two sources, of which neither is an output and the first claims another name, has not the outcome
that it has alone. -/
structure Leaks (b : Batch) (fs : FileSystem) (first second : Path) : Prop where
  skeleton : b.settings.backend.kind = .skeleton
  unstopped : b.stopAfter = none
  wellFormed : fs.WellFormed
  valid : b.settings.validate fs = .ok ()
  made : (fs.makeDirectories b.destination).2 = .ok ()
  no_source : b.noSourceIsOutput (b.prepared fs) [first, second] = true
  no_rival : rival? b.settings [first] second = none
  differs : (b.run [first, second] fs).1[1]? ≠ (b.run [second] fs).1.head?

/-- The attachment of an output, if there is one. -/
def attachmentOf? (o : Outcome) : Option Attachment :=
  match o.result with
  | .ok report => some report.attachment
  | .error _ => none

/-- A source that would be found below the output of another. -/
theorem leaks_below_output :
    Leaks (simpleBatch "out" "jar") (holding [(["a.jar"], simpleArchive), (["out"], .directory)])
      (Path.ofText "a.jar") (Path.ofText "out/a-sources.jar/c.jar") where
  skeleton := rfl
  unstopped := rfl
  wellFormed := holding_wellFormed (by decide +kernel)
  valid := simpleBatch_valid (by cbv)
  made := by cbv
  no_source := by cbv
  no_rival := by decide +kernel
  differs e := by
    have halone : ((simpleBatch "out" "jar").run [Path.ofText "out/a-sources.jar/c.jar"]
        (holding [(["a.jar"], simpleArchive), (["out"], .directory)])).1.head? =
          some ⟨Path.ofText "out/a-sources.jar/c.jar", .error (.io (.os .noEntry))⟩ := by cbv
    have hafter : ((simpleBatch "out" "jar").run [Path.ofText "a.jar", Path.ofText "out/a-sources.jar/c.jar"]
        (holding [(["a.jar"], simpleArchive), (["out"], .directory)])).1[1]? =
          some ⟨Path.ofText "out/a-sources.jar/c.jar", .error (.io (.os .notDirectory))⟩ := by cbv
    rw [halone, hafter] at e
    simp at e

/-- An output whose path is a link to the place of another. -/
theorem leaks_through_output :
    Leaks (simpleBatch "out" "jar")
      (holding [(["a.jar"], simpleArchive), (["b.jar"], simpleArchive), (["out"], .directory),
        (["out", "b-sources.jar"], .link (Path.ofText "a-sources.jar"))])
      (Path.ofText "a.jar") (Path.ofText "b.jar") where
  skeleton := rfl
  unstopped := rfl
  wellFormed := holding_wellFormed (by decide +kernel)
  valid := simpleBatch_valid (by cbv)
  made := by cbv
  no_source := by cbv
  no_rival := by decide +kernel
  differs e := by
    have halone : ((simpleBatch "out" "jar").run [Path.ofText "b.jar"]
        (holding [(["a.jar"], simpleArchive), (["b.jar"], simpleArchive), (["out"], .directory),
          (["out", "b-sources.jar"], .link (Path.ofText "a-sources.jar"))])).1.head?.bind attachmentOf? =
            some .created := by cbv
    have hafter : ((simpleBatch "out" "jar").run [Path.ofText "a.jar", Path.ofText "b.jar"]
        (holding [(["a.jar"], simpleArchive), (["b.jar"], simpleArchive), (["out"], .directory),
          (["out", "b-sources.jar"], .link (Path.ofText "a-sources.jar"))])).1[1]?.bind attachmentOf? =
            some .updated := by cbv
    rw [e, halone] at hafter
    cases hafter

/-- A destination that is reached through a link at the place of an output. -/
theorem leaks_through_destination :
    Leaks (simpleBatch "out/a-sources.jar" "jar")
      (holding [(["a.jar"], simpleArchive), (["b.jar"], simpleArchive), (["out"], .directory),
        (["out", "a-sources.jar"], .link (Path.ofText "."))])
      (Path.ofText "a.jar") (Path.ofText "b.jar") where
  skeleton := rfl
  unstopped := rfl
  wellFormed := holding_wellFormed (by decide +kernel)
  valid := simpleBatch_valid (by cbv)
  made := by cbv
  no_source := by cbv
  no_rival := by decide +kernel
  differs e := by
    have halone : ((simpleBatch "out/a-sources.jar" "jar").run [Path.ofText "b.jar"]
        (holding [(["a.jar"], simpleArchive), (["b.jar"], simpleArchive), (["out"], .directory),
          (["out", "a-sources.jar"], .link (Path.ofText "."))])).1.head?.bind attachmentOf? =
            some .created := by cbv
    have hafter : ((simpleBatch "out/a-sources.jar" "jar").run [Path.ofText "a.jar", Path.ofText "b.jar"]
        (holding [(["a.jar"], simpleArchive), (["b.jar"], simpleArchive), (["out"], .directory),
          (["out", "a-sources.jar"], .link (Path.ofText "."))])).1[1]?.bind attachmentOf? = none := by cbv
    rw [e, halone] at hafter
    cases hafter

/-- A source whose extension is no text is not an archive, even if an archive has claimed the name that its output
would have. -/
theorem claimed_name_unsupported :
    let b := simpleBatch "out" "q-sources"
    let fs := holding []
    let first := Path.ofText "y.q-sources"
    let second : Path := ⟨Utf8.encode "y-sources.q." ++ [0xFF]⟩
    b.settings.validate fs = .ok () ∧ b.noSourceIsOutput (b.prepared fs) [first, second] = true ∧
      claim? b.settings first = some "y-sources.q-sources" ∧
      (outputName second b.settings.output.suffix).toOption = some "y-sources.q-sources" ∧
      (b.run [first, second] fs).1[1]? = some ⟨second, .error (.unsupportedArchive second.display)⟩ := by
  intro b fs first second
  refine ⟨simpleBatch_valid (by simp only [fs]; cbv), ?_, ?_, ?_, ?_⟩ <;> simp only [b, fs, first, second]
  · cbv
  · decide +kernel
  · decide +kernel
  · cbv

end Batch

end SourceJar
