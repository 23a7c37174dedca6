import SourceJar.Proofs.Jobs

/-!
Where the outputs of a batch go.

An output goes to the directory that the destination leads to, under the name that its source claims. Jobs
make directories and put outputs where no directories are, so the directory that the destination leads to stays
the same throughout a batch, and no place changes but those of outputs.

- `makeDirectories_leads`: directories that were made are found.
- `put_place`: the place of an output that is delivered.
- `run_worked`: what a whole batch leaves as it was.
- `run_keeps_files`: a file, be it a source or not, keeps its bytes unless it is itself an output.
-/

namespace SourceJar

open Archive FileSystem

/-! ## Directories that were made -/

namespace FileSystem

/-- A free spot is found once something was put there. -/
theorem Leads.made {fs fs' : FileSystem} {place : Place} (hc : ChangesAt place fs fs') (hn : fs.get? place = none)
    (hd : fs'.get? place = some .directory) {follow slash : Bool} {links : Nat} {here : Place} {names : List Bytes}
    {asked : Bool} (h : Leads fs follow links here names slash (.free place asked)) :
    Leads fs' true links here names slash (.taken place .directory) := by
  have kept : ∀ other node, fs.get? other = some node → fs'.get? other = some node := fun other node hg => by
    rw [hc.elsewhere other, hg]
    rintro rfl
    rw [hn] at hg
    cases hg
  generalize hs : Spot.free place asked = spot at h
  induction h with
  | here => cases hs
  | stay _ ih => exact .stay (ih hs)
  | up _ ih => exact .up (ih hs)
  | down hname hg _ ih => exact .down hname (kept _ _ hg) (ih hs)
  | along hname hg _ _ ih => exact .along hname (kept _ _ hg) (by simp) (ih hs)
  | link => cases hs
  | node => cases hs
  | free hname _ =>
    cases hs
    exact .down hname hd (.here _ _ _)

theorem isDirectory_iff {fs : FileSystem} {p : Path} :
    fs.isDirectory p = true ↔ ∃ place, fs.locate true p = .ok (.taken place .directory) := by
  unfold isDirectory stat
  cases fs.locate true p with
  | error e => simp
  | ok spot =>
    rcases spot with ⟨place, node⟩ | ⟨place, slash⟩
    · cases node <;> simp
    · simp

theorem makeDirectory_isDirectory {fs fs' : FileSystem} (hfs : fs.WellFormed) {p : Path}
    (h : fs.makeDirectory p = .ok fs') : fs'.isDirectory p = true := by
  obtain ⟨place, slash, hl, rfl⟩ := makeDirectory_eq_ok h
  have hn : fs.get? place = none := (stands_of_locate hfs hl).1
  obtain ⟨ha, hleads⟩ := locate_eq_ok_iff.mp hl
  refine isDirectory_iff.mpr ⟨place, locate_eq_ok_iff.mpr ⟨ha, ?_⟩⟩
  exact hleads.made (changesAt_put fs place _) hn (get?_put_self fs (ne_nil_of_free hn) _)

theorem makeDirectoryAfter_isDirectory {above : FileSystem → FileSystem × Except IoFault Unit} {p : Path}
    {fs fs' : FileSystem} (hfs : fs.WellFormed) (ha : (above fs).1.WellFormed)
    (h : makeDirectoryAfter above p fs = (fs', .ok ())) : fs'.isDirectory p = true := by
  simp only [makeDirectoryAfter] at h
  split at h
  · cases h
    exact makeDirectory_isDirectory hfs ‹_›
  · split at h <;> rename_i e <;> rw [e] at ha
    · cases h
    · split at h
      · cases h
        exact makeDirectory_isDirectory ha ‹_›
      · split at h <;> cases h
        assumption
  · split at h <;> cases h
    assumption

/-- When the directories along a path were made, the path leads to the last of them. -/
theorem makeDirectories_leads {fs fs' : FileSystem} (hfs : fs.WellFormed) {p : Path}
    (h : fs.makeDirectories p = (fs', .ok ())) :
    ∃ place, ∀ slash, Leads fs' true maxLinks (fs'.startOf p) (namesOf p) slash (.taken place .directory) := by
  unfold makeDirectories at h
  split at h
  · rename_i hp
    have hnames : namesOf p = [] := by simp [namesOf, hp, Split.splitOn]
    rw [hnames]
    exact ⟨_, fun slash => .here _ _ slash⟩
  · have habove := makeComponents_induct (motive := FileSystem.WellFormed)
      (fun _ _ _ hw hm => (makeDirectory_grown NoScratch hw hm).2)
      (p.components.reverse.drop 1) fs hfs
    obtain ⟨place, hl⟩ := isDirectory_iff.mp (makeDirectoryAfter_isDirectory hfs habove h)
    exact ⟨place, (locate_eq_ok_iff.mp hl).2.any_slash⟩

/-! ## Paths seen from the working directory -/

/-- A path that is written out from the root starts with the names of the working directory. -/
theorem parts_from_working {fs : FileSystem} (hfs : fs.WellFormed) {p : Path} (hp : p.isAbsolute = false) :
    fs.startOf ((pathOf fs.workingDirectory).join p) = [] ∧
      namesOf ((pathOf fs.workingDirectory).join p) = fs.workingDirectory ++ namesOf p ∧
      fs.startOf p = fs.workingDirectory := by
  refine ⟨?_, ?_, ?_⟩
  · rw [startOf, isAbsolute_join hp, isAbsolute_pathOf, if_pos rfl]
  · rw [namesOf_join hp, namesOf_pathOf fun name hn => (hfs.workingNames name hn).2]
  · rw [startOf, hp]
    rfl

/-- A path leads to the same place when it is written out from the root. -/
theorem walk_from_working {fs : FileSystem} (hfs : fs.WellFormed) (follow : Bool) (links : Nat) (p : Path)
    (slash : Bool) :
    fs.walk follow links (fs.startOf ((pathOf fs.workingDirectory).join p))
        (namesOf ((pathOf fs.workingDirectory).join p)) slash =
      fs.walk follow links (fs.startOf p) (namesOf p) slash := by
  cases hp : p.isAbsolute with
  | true => rw [Path.join, if_pos hp]
  | false =>
    obtain ⟨hroot, hnames, hstart⟩ := parts_from_working hfs hp
    rw [hroot, hnames, hstart]
    exact walk_descend (fun name hn => (hfs.workingNames name hn).1) fun front hf =>
      hfs.directory_of_prefix hfs.working hf

/-- A path touches the same places when it is written out from the root. -/
theorem touchedBy_from_working {fs : FileSystem} (hfs : fs.WellFormed) (p : Path) :
    fs.touchedBy ((pathOf fs.workingDirectory).join p) = fs.touchedBy p := by
  unfold touchedBy
  cases hp : p.isAbsolute with
  | true => rw [Path.join, if_pos hp]
  | false =>
    obtain ⟨hroot, hnames, hstart⟩ := parts_from_working hfs hp
    rw [hroot, hnames, hstart]
    exact touched_descend (fun name hn => (hfs.workingNames name hn).1) fun front hf =>
      hfs.directory_of_prefix hfs.working hf

end FileSystem

namespace Batch

/-- The file system in which the jobs of a batch start. -/
def prepared (b : Batch) (fs : FileSystem) : FileSystem := (fs.makeDirectories b.destination).1

/-- Where the output of a source goes, if the source claims an output name. -/
def outputPlace? (b : Batch) (fs : FileSystem) (source : Path) : Option Place :=
  match claim? b.settings source, b.outputDirectory? fs with
  | some name, some directory => some (directory ++ [Utf8.encode name])
  | _, _ => none

theorem outputPlace?_eq_some_iff {b : Batch} {fs : FileSystem} {source : Path} {place : Place} :
    b.outputPlace? fs source = some place ↔
      ∃ name directory, claim? b.settings source = some name ∧ b.outputDirectory? fs = some directory ∧
        place = directory ++ [Utf8.encode name] := by
  unfold outputPlace?
  cases claim? b.settings source <;> cases b.outputDirectory? fs <;> simp [eq_comm]

theorem outputDirectory?_eq_some_iff {b : Batch} {fs : FileSystem} (hfs : fs.WellFormed) {directory : Place} :
    b.outputDirectory? fs = some directory ↔
      Accepts ((pathOf fs.workingDirectory).join b.destination) ∧
        ∀ slash, Leads fs true maxLinks (fs.startOf b.destination) (namesOf b.destination) slash
          (.taken directory .directory) := by
  have hoption : b.outputDirectory? fs = some directory ↔
      fs.directoryPlace ((pathOf fs.workingDirectory).join b.destination) = .ok directory := by
    unfold outputDirectory?
    cases fs.directoryPlace ((pathOf fs.workingDirectory).join b.destination) <;> simp [Except.toOption]
  rw [hoption, directoryPlace_eq_ok_iff, locate_eq_ok_iff]
  refine and_congr_right fun _ => ?_
  rw [← walk_eq_ok_iff, walk_from_working hfs, walk_eq_ok_iff]
  exact ⟨fun h => h.any_slash, fun h => h _⟩

/-- An output is put into the directory that the destination leads to. -/
theorem put_place {b : Batch} {fs grown fs' : FileSystem} (hfs : fs.WellFormed) {name : String}
    (hname : IsPlain (Utf8.encode name)) {directory : Place} (hd : b.outputDirectory? fs = some directory)
    {archive : Bytes} {spot : Spot}
    (h : PutAt (b.destination.join (Path.ofText name)) archive fs grown spot fs') :
    spot.place = directory ++ [Utf8.encode name] := by
  have hseg := hname.toIsSegment
  have hrel := isAbsolute_segment hseg
  have hleads := (locate_eq_ok_iff.mp h.leads).2
  have hstart : grown.startOf (b.destination.join (Path.ofText name)) = fs.startOf b.destination := by
    rw [startOf, Path.ofText, isAbsolute_join hrel, h.grown_from.workingDirectory, ← startOf]
  have hnames : namesOf (b.destination.join (Path.ofText name)) = namesOf b.destination ++ [Utf8.encode name] := by
    rw [Path.ofText, namesOf_join hrel, namesOf_segment hseg]
  have hslash : endsInSlash (b.destination.join (Path.ofText name)) = false := by
    rw [Path.ofText, endsInSlash_join hrel hseg.ne_nil, endsInSlash_segment hseg]
  rw [hstart, hnames, hslash] at hleads
  obtain ⟨directory', left, hdir, hlast⟩ := hleads.split (List.cons_ne_nil _ _)
  -- growth does not change where the destination leads
  have hdir' := (((outputDirectory?_eq_some_iff hfs).mp hd).2 false).mono h.grown_from.kept
  obtain ⟨rfl, -⟩ := Spot.taken.inj ((hdir false).unique hdir')
  generalize Utf8.encode name = bytes at hlast hname
  cases hlast with
  | stay => exact absurd rfl hname.ne_here
  | up => exact absurd rfl hname.ne_parent
  | down _ _ hl => cases hl; rfl
  | along _ _ hr => exact absurd ⟨rfl, Bool.false_ne_true, Bool.false_ne_true⟩ hr
  | link => rfl
  | node => rfl
  | free => rfl

/-! ## What a batch leaves as it was -/

/-- What a batch may do to a file system: directories stay, whatever else there is stays or makes way for a file, and
only at the places of outputs does anything change. -/
structure Worked (outputs : Place → Prop) (fs fs' : FileSystem) : Prop where
  workingDirectory : fs'.workingDirectory = fs.workingDirectory
  directories : ∀ place, fs.get? place = some .directory → fs'.get? place = some .directory
  replaced : ∀ place node, fs.get? place = some node → node ≠ .directory →
    fs'.get? place = some node ∨ ∃ content, fs'.get? place = some (.file content)
  kept : ∀ place node, ¬outputs place → fs.get? place = some node → fs'.get? place = some node

section Work

variable {outputs : Place → Prop} {fs fs' fs'' : FileSystem}

theorem Worked.of_grown {scratch : Place → Prop} (h : Grown scratch fs fs') : Worked outputs fs fs' where
  workingDirectory := h.workingDirectory
  directories place hg := h.kept place _ hg
  replaced place _ hg _ := Or.inl (h.kept place _ hg)
  kept place node _ hg := h.kept place node hg

theorem Worked.trans (h : Worked outputs fs fs') (h' : Worked outputs fs' fs'') : Worked outputs fs fs'' where
  workingDirectory := h'.workingDirectory.trans h.workingDirectory
  directories place hg := h'.directories place (h.directories place hg)
  replaced place node hg hn := by
    rcases h.replaced place node hg hn with hg | ⟨content, hg⟩
    · exact h'.replaced place node hg hn
    · refine (h'.replaced place _ hg Inode.noConfusion).elim (fun hg => Or.inr ⟨content, hg⟩) Or.inr
  kept place node ho hg := h'.kept place node ho (h.kept place node ho hg)

theorem Worked.of_putAt {p : Path} {archive : Bytes} {grown : FileSystem} {spot : Spot}
    (h : PutAt p archive fs grown spot fs') (ho : outputs spot.place) : Worked outputs fs fs' := by
  refine Worked.trans (.of_grown h.grown_from) ⟨h.changes.workingDirectory, ?_, ?_, ?_⟩
  · intro place hg
    rw [h.changes.elsewhere place fun e => h.not_directory (e ▸ hg), hg]
  · intro place node hg _
    by_cases e : place = spot.place
    · exact Or.inr ⟨archive, e ▸ h.content⟩
    · exact Or.inl ((h.changes.elsewhere place e).trans hg)
  · intro place node hp hg
    rw [h.changes.elsewhere place fun e => hp (e ▸ ho), hg]

/-- The directory that the destination leads to stays the same. -/
theorem Worked.outputDirectory? {b : Batch} (h : Worked outputs fs fs') (hfs : fs.WellFormed) (hfs' : fs'.WellFormed)
    {prepared : Place} (hprepared : ∀ slash, Leads fs true maxLinks (fs.startOf b.destination)
      (namesOf b.destination) slash (.taken prepared .directory))
    {directory : Place} (hd : b.outputDirectory? fs' = some directory) : b.outputDirectory? fs = some directory := by
  obtain ⟨ha, hl⟩ := (outputDirectory?_eq_some_iff hfs').mp hd
  have hstart : fs'.startOf b.destination = fs.startOf b.destination := by rw [startOf, h.workingDirectory, ← startOf]
  rw [hstart] at hl
  have e : directory = prepared := (hprepared false).directory_eq h.directories
    (fun place target hg => h.replaced place _ hg Inode.noConfusion) (hl false)
  rw [h.workingDirectory] at ha
  exact (outputDirectory?_eq_some_iff hfs).mpr ⟨ha, e ▸ hprepared⟩

end Work

theorem titleFor_eq_ok {b : Batch} {source : Path} {s : State} {title : String}
    (h : b.titleFor source s = .ok title) : b.settings.isArchivePath source = true := by
  unfold titleFor at h
  split at h
  · cases h
  · split at h
    · cases h
    · simpa using ‹¬¬_›

/-- A source that a job is opened for has claimed the name of the job's output. -/
theorem openJob_claims {b : Batch} {index : Nat} {title : String} {source : Path} {fs : FileSystem} {job : Job}
    (ha : b.settings.isArchivePath source = true) (h : b.openJob index title source fs = .ok job) :
    claim? b.settings source = some job.outputName ∧
      job.outputPath = b.destination.join (Path.ofText job.outputName) := by
  obtain ⟨root, name, -, hname, rfl⟩ := openJob_eq_ok h
  refine ⟨?_, rfl⟩
  rw [claim?, if_pos ha, hname]
  rfl

theorem runJob_claims {b : Batch} {index : Nat} {source : Path} {s s' : State} {report : ArchiveReport}
    (h : b.runJob index source s = (.ok report, s')) {title : String} {job : Job}
    (hopen : b.openJob index title source s.fs = .ok job) :
    claim? b.settings source = some job.outputName ∧
      job.outputPath = b.destination.join (Path.ofText job.outputName) := by
  unfold runJob at h
  split at h
  · cases h
  · rename_i htitle
    exact openJob_claims (titleFor_eq_ok htitle) hopen

/-- The bytes of a claimed output name are a name that a path goes down along. -/
theorem claim?_plain {settings : Settings} {source : Path} {name : String} (hs : IsSuffix settings.output.suffix)
    (h : claim? settings source = some name) : IsPlain (Utf8.encode name) := by
  unfold claim? at h
  split at h
  · rename_i ha
    obtain ⟨extension, he⟩ := Settings.extensionText?_of_isArchivePath ha
    cases hname : outputName source settings.output.suffix with
    | error e => rw [hname] at h; cases h
    | ok name' =>
      rw [hname] at h
      obtain rfl : name' = name := Option.some.inj h
      exact outputName_plain hs he hname
  · cases h

/-- What one job may do: if it succeeds, its output is put at the place of the source's output. -/
theorem runJob_put {b : Batch} (hb : b.Tidy) (hsuffix : IsSuffix b.settings.output.suffix) {index : Nat}
    {source : Path} {s s' : State} (hs : s.fs.WellFormed) {report : ArchiveReport}
    (h : b.runJob index source s = (.ok report, s')) :
    ∃ title job backend t grown spot, b.openJob index title source s.fs = .ok job ∧ b.Traversed job backend t ∧
      report = reportOf job backend t ∧ b.outputPlace? s.fs source = some spot.place ∧
      PutAt job.outputPath t.draft.encode s.fs grown spot s'.fs := by
  obtain ⟨title, job, backend, t, grown, spot, hopen, ht, hreport, ⟨directory, hd⟩, hput⟩ := runJob_delivered hb hs h
  obtain ⟨hclaim, hpath⟩ := runJob_claims h hopen
  rw [hpath] at hput
  have hplace := put_place hs (claim?_plain hsuffix hclaim) hd hput
  refine ⟨title, job, backend, t, grown, spot, hopen, ht, hreport, ?_, hpath ▸ hput⟩
  rw [outputPlace?, hclaim, hd, hplace]

section Run

variable {b : Batch} {outputs : Place → Prop} {prepared : FileSystem} {directory : Place}

theorem resultOf_worked (hb : b.Tidy) (hsuffix : IsSuffix b.settings.output.suffix) (hp : prepared.WellFormed)
    (hl : ∀ slash, Leads prepared true maxLinks (prepared.startOf b.destination) (namesOf b.destination) slash
      (.taken directory .directory))
    (index : Nat) (source : Path) (conflict : Option Path)
    (ho : ∀ place, b.outputPlace? prepared source = some place → outputs place) {s : State} (hs : s.fs.WellFormed)
    (hw : Worked outputs prepared s.fs) :
    (b.resultOf index source conflict s).2.fs.WellFormed ∧
      Worked outputs prepared (b.resultOf index source conflict s).2.fs := by
  cases conflict with
  | some first => exact ⟨hs, hw⟩
  | none =>
    rw [resultOf]
    cases hj : b.runJob index source s with
    | mk result s' =>
      cases result with
      | error e =>
        obtain ⟨hg, hs'⟩ := runJob_failed hb hs hj
        exact ⟨hs', hw.trans (.of_grown hg)⟩
      | ok report =>
        obtain ⟨-, job, -, t, grown, spot, -, -, -, hplace, hput⟩ := runJob_put hb hsuffix hs hj
        refine ⟨hput.wellFormed, hw.trans (.of_putAt hput (ho _ ?_))⟩
        -- the output goes where it would have gone at the start
        obtain ⟨name, directory', hclaim, hd, e⟩ := outputPlace?_eq_some_iff.mp hplace
        exact outputPlace?_eq_some_iff.mpr ⟨name, directory', hclaim, hw.outputDirectory? hp hs hl hd, e⟩

/-- What a row of jobs leaves as it was. -/
theorem runFrom_worked (hb : b.Tidy) (hsuffix : IsSuffix b.settings.output.suffix) (hp : prepared.WellFormed)
    (hl : ∀ slash, Leads prepared true maxLinks (prepared.startOf b.destination) (namesOf b.destination) slash
      (.taken directory .directory))
    (index : Nat) (jobs : List (Path × Option Path))
    (ho : ∀ job ∈ jobs, ∀ place, b.outputPlace? prepared job.1 = some place → outputs place) {s : State}
    (hs : s.fs.WellFormed) (hw : Worked outputs prepared s.fs) :
    (b.runFrom index jobs s).2.fs.WellFormed ∧ Worked outputs prepared (b.runFrom index jobs s).2.fs := by
  induction jobs generalizing index s with
  | nil => exact ⟨hs, hw⟩
  | cons job rest ih =>
    obtain ⟨source, conflict⟩ := job
    obtain ⟨hs', hw'⟩ := resultOf_worked hb hsuffix hp hl index source conflict (ho _ List.mem_cons_self) hs hw
    exact ih (index + 1) (fun job hj => ho job (List.mem_cons_of_mem _ hj)) hs' hw'

end Run

/-- What a whole batch leaves as it was, from when the destination was made. -/
theorem run_worked {b : Batch} (hb : b.Tidy) (hsuffix : IsSuffix b.settings.output.suffix) {fs : FileSystem}
    (hfs : fs.WellFormed) (sources : List Path) :
    Worked (fun place => ∃ source ∈ sources, b.outputPlace? (b.prepared fs) source = some place) fs
      (b.run sources fs).2.fs := by
  obtain ⟨hg, hp⟩ := makeDirectories_grown hfs NoScratch b.destination
  unfold run
  split <;> rename_i hmade
  · rw [hmade] at hg
    exact .of_grown hg
  · rename_i prepared
    have hprepared : b.prepared fs = prepared := by rw [Batch.prepared, hmade]
    obtain ⟨directory, hl⟩ := makeDirectories_leads hfs hmade
    rw [hmade] at hg hp
    refine Worked.trans (.of_grown hg) (runFrom_worked hb hsuffix hp hl 0 _ ?_ hp (.of_grown (.refl NoScratch _))).2
    intro job hj place hplace
    rw [hprepared]
    exact ⟨job.1, (List.of_mem_zip hj).1, hplace⟩

/-- Whatever comes of a batch, a file that a path leads to keeps its bytes, be it a source or not, unless it is the
file at `destination/<output name>` of a source. -/
theorem run_keeps_files {b : Batch} (hb : b.Tidy) {fs : FileSystem} (hv : b.settings.validate fs = .ok ())
    (hfs : fs.WellFormed) {sources : List Path} {p : Path} {place : Place} {content : Bytes}
    (hp : fs.locate true p = .ok (.taken place (.file content)))
    (ho : ∀ source ∈ sources, b.outputPlace? (b.prepared fs) source ≠ some place) :
    (b.run sources fs).2.fs.get? place = some (.file content) := by
  refine (run_worked hb (Settings.isSuffix_of_validate hv) hfs sources).kept place _ ?_ (stands_of_locate hfs hp)
  rintro ⟨source, hm, e⟩
  exact ho source hm e

/-- One source, next to which its output is written. -/
theorem source_beside_output_kept :
    let b : Batch :=
      { settings := { output := { destination := Path.ofText "." }, jobs := 1 }, destination := Path.ofText "."
        programs := fun _ _ _ fs => (.error (.os .noEntry), fs) }
    let fs : FileSystem :=
      { nodes := [([Utf8.encode "lib.jar"], .file (Zip.encode [⟨"README", []⟩]))]
        workingDirectory := [], temporaryDirectory := [] }
    ((b.run [Path.ofText "lib.jar"] fs).1.all fun o => o.result.isOk) = true ∧
      (b.run [Path.ofText "lib.jar"] fs).2.fs.get? [Utf8.encode "lib.jar"] =
        some (.file (Zip.encode [⟨"README", []⟩])) := by
  intro b fs
  have hok : ((b.run [Path.ofText "lib.jar"] fs).1.all fun o => o.result.isOk) = true := by
    simp only [b, fs]
    cbv
  have hnofile : fs.isFile b.settings.output.destination = false := by
    simp only [b, fs]
    cbv
  have hv : b.settings.validate fs = .ok () := by
    rw [Settings.validate, hnofile]
    simp only [b]
    rfl
  have hfs : fs.WellFormed := WellFormed.of_nodes (by decide +kernel) rfl fun name h => by cases h
  have ho : b.outputPlace? (b.prepared fs) (Path.ofText "lib.jar") = some [Utf8.encode "lib-sources.jar"] := by
    simp only [b, fs]
    cbv
  refine ⟨hok, ?_⟩
  have hl : ∀ archive, FileSystem.locate
      { nodes := [([Utf8.encode "lib.jar"], .file archive)], workingDirectory := [], temporaryDirectory := [] } true
      (Path.ofText "lib.jar") = .ok (.taken [Utf8.encode "lib.jar"] (.file archive)) := by
    intro archive
    cbv
  refine run_keeps_files (tidy_of_skeleton rfl) hv hfs (hl _) fun source hs => ?_
  rw [List.mem_singleton.mp hs, ho]
  decide

/-- An archive that is named like the output of another, and stands where that is written, is replaced by it; and
an archive can be removed by the command that its units are handed to. -/
theorem source_replaced_or_removed :
    (let b : Batch :=
      { settings := { output := { destination := Path.ofText "." }, jobs := 1 }, destination := Path.ofText "."
        programs := fun _ _ _ fs => (.error (.os .noEntry), fs) }
    let fs : FileSystem :=
      { nodes := [([Utf8.encode "lib.jar"], .file (Zip.encode [⟨"README", []⟩])),
          ([Utf8.encode "lib-sources.jar"], .file (Zip.encode [⟨"README", []⟩]))]
        workingDirectory := [], temporaryDirectory := [] }
    let sources := [Path.ofText "lib.jar", Path.ofText "lib-sources.jar"]
    b.settings.validate fs = .ok () ∧
      (fs.readFile (Path.ofText "lib-sources.jar")).map List.length = .ok 110 ∧
      ((b.run sources fs).2.fs.readFile (Path.ofText "lib-sources.jar")).map List.length = .ok 22) ∧
    (let b : Batch :=
      { settings := { backend := { kind := .stream, command := some "rm" }
                      output := { destination := Path.ofText "out" }, jobs := 1 }
        destination := Path.ofText "out"
        programs := fun _ _ _ fs => (.ok {}, fs.erase [Utf8.encode "lib.jar"]) }
    let fs : FileSystem :=
      { nodes := [([Utf8.encode "lib.jar"], .file (Zip.encode [⟨"X.class", []⟩]))]
        workingDirectory := [], temporaryDirectory := [] }
    b.settings.validate fs = .ok () ∧ fs.isFile (Path.ofText "lib.jar") = true ∧
      (b.run [Path.ofText "lib.jar"] fs).2.fs.isFile (Path.ofText "lib.jar") = false) := by
  constructor
  · intro b fs sources
    have hnofile : fs.isFile b.settings.output.destination = false := by
      simp only [b, fs]
      cbv
    refine ⟨by rw [Settings.validate, hnofile]; simp only [b]; rfl, ?_, ?_⟩ <;> simp only [b, fs, sources] <;> cbv
  · intro b fs
    have hnofile : fs.isFile b.settings.output.destination = false := by
      simp only [b, fs]
      cbv
    refine ⟨by rw [Settings.validate, hnofile]; simp only [b]; rfl, ?_, ?_⟩ <;> simp only [b, fs] <;> cbv

end Batch

end SourceJar
