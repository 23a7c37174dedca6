import SourceJar.Proofs.Independence
import SourceJar.Proofs.MakingAgain
import SourceJar.Proofs.Scanning

/-!
Running a batch once more over what it has made.

The outputs of a batch are not taken for archives to work on, and the way to an archive does not lead through an
output unless the way to an input does. So where no output goes to a place on the way to an input or to the
destination (`Clear`), what a batch has made matters to the next run only in that the outputs are there: the
same archives are found, each comes to the same, and each output is put again where it is.

- `conversion_renewal`: a source is converted alike, but for whether its output was there.
- `Clear.to_sources`: the way to an archive that was found is clear if the way to the input is.
- `run_first`, `run_again`: what comes of the sources in the first run, and in every further one.
- `run_renewed`: a first run and a second.
-/

namespace SourceJar

open Archive FileSystem

/-! ## Outputs that are there already -/

/-- A report, if its output had been there already. -/
def ArchiveReport.renewed (r : ArchiveReport) : ArchiveReport := { r with attachment := .updated }

/-- An outcome, if the output had been there already. -/
def Outcome.renewed (o : Outcome) : Outcome := { o with result := o.result.map ArchiveReport.renewed }

namespace FileSystem

/-- A walk to a file comes there also if links at the end are followed. -/
theorem Leads.followed {fs : FileSystem} {follow slash : Bool} {links : Nat} {here : Place} {names : List Bytes}
    {place : Place} {content : Bytes} (h : Leads fs follow links here names slash (.taken place (.file content))) :
    Leads fs true links here names slash (.taken place (.file content)) := by
  generalize hs : Spot.taken place (.file content) = spot at h ⊢
  induction h with
  | here => cases hs
  | stay _ ih => exact .stay (ih hs)
  | up _ ih => exact .up (ih hs)
  | down hn hg _ ih => exact .down hn hg (ih hs)
  | along hn hg _ _ ih => exact .along hn hg (by simp) (ih hs)
  | link => cases hs
  | node hn hg hd hl hsl => exact .node hn hg hd hl hsl
  | free => cases hs

/-! ## Places that are there once -/

theorem Distinct.makeDirectories {fs : FileSystem} (h : fs.Distinct) (p : Path) :
    (fs.makeDirectories p).1.Distinct := by
  refine makeDirectories_induct (fun fs p fs' hd hm => ?_) h p
  obtain ⟨place, slash, -, rfl⟩ := makeDirectory_eq_ok hm
  exact hd.put place .directory

theorem Distinct.moveFile {fs fs' : FileSystem} (h : fs.Distinct) {source : Place} {p : Path}
    (hm : fs.moveFile source p = .ok fs') : fs'.Distinct := by
  unfold FileSystem.moveFile at hm
  cases hg : fs.get? source with
  | none => rw [hg] at hm; cases hm
  | some node =>
    rw [hg] at hm
    cases hl : fs.locate false p with
    | error e => simp [hl, bind, Except.bind] at hm
    | ok spot =>
      rw [hl] at hm
      rcases spot with ⟨place, old⟩ | ⟨place, slash⟩
      · cases old with
        | directory => cases hm
        | _ => cases hm; exact (h.erase source).put place node
      · cases slash with
        | true => cases hm
        | false => cases hm; exact (h.erase source).put place node

end FileSystem

namespace Batch

/-- What comes of a source, but for whether its output was there already. -/
def renewal (e : Except Failure (ArchiveReport × Place × Bytes)) : Except Failure (ArchiveReport × Place × Bytes) :=
  e.map fun (report, delivered) => (report.renewed, delivered)

theorem renewal_report (e : Except Failure (ArchiveReport × Place × Bytes)) :
    (renewal e).map Prod.fst = (e.map Prod.fst).map ArchiveReport.renewed := by
  cases e <;> rfl

/-- The place and the bytes of an output do not depend on whether it was there already. -/
theorem renewal_eq_ok {e e' : Except Failure (ArchiveReport × Place × Bytes)} (h : renewal e' = renewal e)
    {report : ArchiveReport} {place : Place} {archive : Bytes} (he : e = .ok (report, place, archive)) :
    ∃ report', e' = .ok (report', place, archive) ∧ report'.renewed = report.renewed := by
  subst he
  rcases e' with e' | ⟨report', place', archive'⟩
  · cases h
  · obtain ⟨hreport, hdelivered⟩ := Prod.mk.inj (Except.ok.inj h)
    cases hdelivered
    exact ⟨report', rfl, hreport⟩

theorem Effect.of_renewal {e e' : Except Failure (ArchiveReport × Place × Bytes)} (h : renewal e' = renewal e)
    {fs fs' : FileSystem} (heffect : Effect fs e' fs') : Effect fs e fs' := by
  rcases e with e | ⟨report, place, archive⟩
  · rcases e' with e' | _
    · exact heffect
    · cases h
  · obtain ⟨report', rfl, -⟩ := renewal_eq_ok h rfl
    exact heffect

section Job

variable {b : Batch}

theorem concluded_renewal (job : Job) (attachment : Attachment) (fs : FileSystem) :
    renewal (b.concluded { job with attachment } fs) = renewal (b.concluded job fs) := by
  have hhost : b.host b.skeletonBackend { job with attachment } = b.host b.skeletonBackend job := rfl
  unfold concluded
  rw [hhost]
  split
  · rfl
  · rcases Traversal.run (b.host b.skeletonBackend job) job.root { state := { fs } } with ⟨_ | _, t⟩
    · rfl
    · simp only
      cases lookUp job.outputPath (Utf8.encode job.outputName) with
      | error e => rfl
      | ok _ =>
        simp only
        split <;> rfl

/-- A job is opened alike, but for whether its output is there, if its archive is as it was. -/
theorem openJob_attach {index : Nat} {title : String} {source : Path} {fs fs' : FileSystem}
    (hread : fs'.readFile source = fs.readFile source) :
    b.openJob index title source fs' = (b.openJob index title source fs).map fun job =>
      { job with attachment := if fs'.pathExists job.outputPath then .updated else .created } := by
  have harchive : openArchive fs' source = openArchive fs source := by
    unfold openArchive
    rw [hread]
  unfold openJob
  rw [harchive]
  cases openArchive fs source with
  | error e => rfl
  | ok root => cases outputName source b.settings.output.suffix <;> rfl

/-- A source is converted alike, but for whether its output was there, if directories are where they were and the ways to
the source and to the destination are as they were. -/
theorem conversion_renewal (hstop : b.stopAfter = none) {source : Path} {fs fs' : FileSystem} (hfs : fs.WellFormed)
    (hw : fs'.workingDirectory = fs.workingDirectory)
    (hd : ∀ place, fs'.get? place = some .directory ↔ fs.get? place = some .directory)
    (hsource : ∀ place ∈ fs.touchedBy source, fs'.get? place = fs.get? place)
    (hdestination : ∀ place ∈ fs.touchedBy b.destination, fs'.get? place = fs.get? place) :
    renewal (b.conversion source fs') = renewal (b.conversion source fs) := by
  have hkept := fun place => (hd place).mpr
  have hread : fs'.readFile source = fs.readFile source := by
    rw [readFile, stat, locate_congr hw hkept hsource]
    rfl
  have hdir : fs'.directoryPlace ((pathOf fs.workingDirectory).join b.destination) =
      fs.directoryPlace ((pathOf fs.workingDirectory).join b.destination) := by
    rw [directoryPlace, locate_congr hw hkept fun place hp => hdestination place (touchedBy_from_working hfs _ ▸ hp)]
    rfl
  unfold conversion
  split
  · rfl
  · cases nameOf source with
    | error e => rfl
    | ok title =>
      simp only [openJob_attach hread]
      cases b.openJob 0 title source fs with
      | error e => rfl
      | ok job =>
        simp only [Except.map]
        rw [concluded_renewal, concluded_congr hstop hw hdir fun directory _ => hd _]

theorem concluded_attachment {job : Job} {fs : FileSystem} {report : ArchiveReport} {place : Place} {archive : Bytes}
    (h : b.concluded job fs = .ok (report, place, archive)) :
    report.attachment = job.attachment ∧ report.outputPath = job.outputPath ∧
      lookUp job.outputPath (Utf8.encode job.outputName) = .ok () := by
  unfold concluded at h
  split at h
  · cases h
  · split at h
    · cases h
    · split at h
      · cases h
      · split at h
        · cases h
        · cases h
          exact ⟨rfl, rfl, ‹_›⟩

/-- A source whose output is there already has it renewed. -/
theorem conversion_renewed (hsuffix : IsSuffix b.settings.output.suffix) {source : Path} {fs : FileSystem}
    (hfs : fs.WellFormed) {report : ArchiveReport} {place : Place} {archive old : Bytes}
    (h : b.conversion source fs = .ok (report, place, archive)) (hold : fs.get? place = some (.file old)) :
    report.renewed = report := by
  obtain ⟨hplace, -, name, hclaim, -⟩ := conversion_eq_ok h
  obtain ⟨name', directory, hclaim', hd, rfl⟩ := outputPlace?_eq_some_iff.mp hplace
  obtain rfl : name = name' := Option.some.inj (hclaim.symm.trans hclaim')
  have hleads := ((outputDirectory?_eq_some_iff hfs).mp hd).2
  unfold conversion at h
  split at h
  · cases h
  · rename_i harchive
    split at h
    · cases h
    · split at h
      · cases h
      · rename_i job hopen
        obtain ⟨hattachment, -, hlook⟩ := concluded_attachment h
        obtain ⟨root, name', -, hname', rfl⟩ := openJob_eq_ok hopen
        have hclaim'' := (openJob_claims (not_not.mp harchive) hopen).1
        obtain rfl : name = name' := Option.some.inj (hclaim.symm.trans hclaim'')
        have hl : fs.locate false (b.destination.join (Path.ofText name)) =
            .ok (.taken (directory ++ [Utf8.encode name]) (.file old)) := by
          have hlook' : lookUp (b.destination.join ⟨Utf8.encode name⟩) (Utf8.encode name) = .ok () := hlook
          rw [Path.ofText, locate_join hleads (claim?_plain hsuffix hclaim), hold, hlook']
          rfl
        obtain ⟨haccepts, hfile⟩ := locate_eq_ok_iff.mp hl
        have hexists : fs.pathExists (b.destination.join (Path.ofText name)) = true := by
          rw [pathExists, stat, locate_eq_ok_iff.mpr ⟨haccepts, hfile.followed⟩]
          rfl
        simp only [hexists, if_true] at hattachment
        rw [ArchiveReport.renewed, ← hattachment]

/-! ## What a run leaves as it was -/

theorem runJob_distinct (hk : b.settings.backend.kind = .skeleton) (hstop : b.stopAfter = none) (index : Nat)
    (source : Path) {s : State} (hd : s.fs.Distinct) : (b.runJob index source s).2.fs.Distinct := by
  have hmake : ∀ fs, Backend.make b.settings.backend fs = (fs, .ok b.skeletonBackend) := fun fs => by
    rw [Backend.make, hk]
    rfl
  have hdeliver : ∀ (job : Job) (place : Place) (s : State), s.fs.Distinct →
      (b.deliver job b.skeletonBackend place s).2.fs.Distinct := by
    intro job place s hs
    have hfs := (run_skeleton hstop job job job.root s s).state
    unfold deliver
    rcases hrun : Traversal.run (b.host b.skeletonBackend job) job.root { state := s } with ⟨_ | _, t⟩ <;>
      rw [hrun] at hfs <;> simp only at hfs
    · simpa only [skeletonBackend, Backend.close, hfs] using hs
    · simp only [State.say, skeletonBackend, Backend.close, hfs]
      split
      · exact hs.put place _
      · exact (hs.put place _).moveFile ‹_›
  unfold runJob
  split
  · exact hd
  · simp only [State.say]
    split
    · exact hd
    · rename_i job _
      unfold produce
      simp only
      split
      · exact hd
      · rename_i hfresh
        obtain ⟨above, number, -, -, -, rfl⟩ := makeFresh_eq_ok hfresh
        simp only [fill, hmake, State.say]
        split <;> rename_i hfill <;> have hfilled := congrArg (fun e => e.2.fs) hfill <;> simp only at hfilled
        · rw [← hfilled]
          exact hdeliver job _ _ (hd.put _ _)
        · simp only
          rw [← hfilled]
          exact (hdeliver job _ _ (hd.put _ _)).erase _

end Job

/-! ## Clear ways -/

/-- No output goes to a place that one of some paths comes to. -/
def Clear (b : Batch) (fs : FileSystem) (ways sources : List Path) : Prop :=
  ∀ way ∈ ways, ∀ source ∈ sources, ∀ place ∈ b.outputPlace? fs source, place ∉ fs.touchedBy way

theorem clear_iff {b : Batch} {fs : FileSystem} {ways sources : List Path} :
    b.Clear fs ways sources ↔
      (ways.all fun way => sources.all fun source => (b.outputPlace? fs source).toList.all fun place =>
        !(fs.touchedBy way).contains place) = true := by
  simp [Clear]

instance (b : Batch) (fs : FileSystem) (ways sources : List Path) : Decidable (b.Clear fs ways sources) :=
  decidable_of_iff _ clear_iff.symm

section Ways

variable {b : Batch} {fs : FileSystem} {inputs sources : List Path}

/-- Jobs start where directories have been added. -/
theorem prepared_grown (hfs : fs.WellFormed) : Grown NoScratch fs (b.prepared fs) ∧ (b.prepared fs).WellFormed :=
  makeDirectories_grown hfs NoScratch b.destination

/-- Nothing at the place of an output is an archive to work on. -/
theorem isCandidate_output (hsuffix : IsSuffix b.settings.output.suffix) {other : Path} {top names : Place}
    (hplace : b.outputPlace? fs other = some (top ++ names)) (hn : names ≠ []) (input : Path) :
    Discovery.isCandidate b.settings (Discovery.descend input names) = false := by
  obtain ⟨name, directory, hclaim, -, e⟩ := outputPlace?_eq_some_iff.mp hplace
  obtain ⟨front, last, rfl⟩ := List.eq_nil_or_concat names |>.resolve_left hn
  rw [List.concat_eq_append, ← List.append_assoc] at e
  obtain rfl : last = Utf8.encode name := (List.cons.inj (List.append_inj' e rfl).2).1
  have hfile : (Discovery.descend input (front ++ [Utf8.encode name])).fileName? = some (Utf8.encode name) := by
    rw [Discovery.descend_concat, Path.fileName?_join _ (claim?_plain hsuffix hclaim)]
  rw [List.concat_eq_append, Discovery.isCandidate, Discovery.isGenerated_of_claim? hclaim hfile]
  simp

/-- The way to an archive that was found is clear if the way to the input is. -/
theorem Clear.to_sources (hsuffix : IsSuffix b.settings.output.suffix) (hfs : fs.WellFormed) (hdistinct : fs.Distinct)
    (hnamed : ∀ place content, fs.get? place = some (.file content) → ∀ name ∈ place, IsName name ∧ IsSegment name)
    (hfound : Discovery.discover b.settings fs inputs = .ok sources) (hc : b.Clear fs inputs sources) :
    b.Clear fs sources sources := by
  intro source hs other ho place hplace htouched
  obtain ⟨input, hi, found, hexpand, hm⟩ := (Discovery.discover_eq_ok hfound).2 source hs
  obtain ⟨top, node, hl⟩ := Discovery.expand_eq_ok hexpand
  rw [Discovery.expand_of_locate hl] at hexpand
  cases hexpand
  split at hm
  · rename_i hnode
    subst hnode
    obtain ⟨hm, hcandidate⟩ := List.mem_filter.mp hm
    obtain ⟨names, hunder, rfl⟩ := List.mem_map.mp hm
    obtain ⟨hn, content, hg⟩ := (mem_filesUnder hdistinct top).mp hunder
    have hnames := fun name hm => hnamed _ content hg name (List.mem_append_right top hm)
    rcases Discovery.touchedBy_descend hfs hl hnames hg htouched with htouched | rfl
    · exact hc input hi other ho place hplace htouched
    · rw [isCandidate_output hsuffix hplace hn input] at hcandidate
      cases hcandidate
  · rw [List.mem_singleton.mp hm] at htouched
    exact hc input hi other ho place hplace htouched

/-- The directories for the destination make no difference to what is discovered. -/
theorem discover_prepared (hfs : fs.WellFormed) (hdistinct : fs.Distinct)
    (hfound : Discovery.discover b.settings fs inputs = .ok sources) :
    Discovery.discover b.settings (b.prepared fs) inputs = .ok sources := by
  have hgrown := (prepared_grown (b := b) hfs).1
  rw [Discovery.discover_congr fun input hi => ?_, hfound]
  obtain ⟨found, hexpand⟩ := (Discovery.discover_eq_ok hfound).1 input hi
  obtain ⟨top, node, hl⟩ := Discovery.expand_eq_ok hexpand
  obtain ⟨ha, hleads⟩ := locate_eq_ok_iff.mp hl
  have hl' : (b.prepared fs).locate true input = .ok (.taken top node) := by
    refine locate_eq_ok_iff.mpr ⟨ha, ?_⟩
    rw [startOf, hgrown.workingDirectory, ← startOf]
    exact hleads.mono hgrown.kept
  refine Discovery.expand_congr hdistinct (hdistinct.makeDirectories _) hl hl' fun names _ _ => ?_
  constructor
  · rintro ⟨content, hg⟩
    rcases hgrown.added _ _ hg with hg | hg | ⟨hno, -⟩
    · exact ⟨content, hg⟩
    · cases hg
    · exact hno.elim
  · rintro ⟨content, hg⟩
    exact ⟨content, hgrown.kept _ _ hg⟩

end Ways

/-! ## The first run and the next -/

section Runs

variable {b : Batch} {base : FileSystem} {inputs sources : List Path}

theorem Converted.directory_iff {done : List Path} {fs : FileSystem} (h : b.Converted base done fs) (place : Place) :
    fs.get? place = some .directory ↔ base.get? place = some .directory := by
  refine ⟨fun hd => ?_, h.directories⟩
  by_cases hput : ∃ archive, b.Puts base done place archive
  · obtain ⟨archive, hput⟩ := hput
    rw [h.archives place archive hput] at hd
    cases hd
  · rwa [h.elsewhere place fun archive hp => hput ⟨archive, hp⟩] at hd

/-- A clear way is as it was. -/
theorem Converted.unmoved {done ways : List Path} {fs : FileSystem} (h : b.Converted base done fs)
    (hdone : ∀ other ∈ done, other ∈ sources) (hc : b.Clear base ways sources) {way : Path} (hw : way ∈ ways)
    {place : Place} (hp : place ∈ base.touchedBy way) : fs.get? place = base.get? place := by
  refine h.elsewhere place fun archive hput => ?_
  obtain ⟨other, ho, hplace⟩ := hput.outputPlace?
  exact hc way hw other (hdone other ho) place hplace hp

/-- The archives that a batch has worked on are found again, and its outputs are not. -/
theorem discover_converted (hsuffix : IsSuffix b.settings.output.suffix) {fs : FileSystem}
    (h : b.Converted base sources fs) (hdistinct : base.Distinct) (hdistinct' : fs.Distinct)
    (hc : b.Clear base inputs sources) (hfound : Discovery.discover b.settings base inputs = .ok sources) :
    Discovery.discover b.settings fs inputs = .ok sources := by
  rw [Discovery.discover_congr fun input hi => ?_, hfound]
  obtain ⟨found, hexpand⟩ := (Discovery.discover_eq_ok hfound).1 input hi
  obtain ⟨top, node, hl⟩ := Discovery.expand_eq_ok hexpand
  have hl' : fs.locate true input = .ok (.taken top node) := by
    rw [locate_congr h.workingDirectory (fun _ => h.directories)
      (fun place hp => h.unmoved (fun _ ho => ho) hc hi hp), hl]
  refine Discovery.expand_congr hdistinct hdistinct' hl hl' fun names hn hcandidate => ?_
  rw [h.elsewhere _ fun archive hput => ?_]
  obtain ⟨other, -, hplace⟩ := hput.outputPlace?
  rw [isCandidate_output hsuffix hplace hn input] at hcandidate
  cases hcandidate

section Steps

variable (hk : b.settings.backend.kind = .skeleton) (hstop : b.stopAfter = none)
  (hsuffix : IsSuffix b.settings.output.suffix) (hp : base.WellFormed)
  (hc : b.Clear base (b.destination :: sources) sources) {earlier rest : List Path} {source : Path}
  (hrest : earlier ++ source :: rest = sources)

include hrest in
theorem puts_of_yield {report : ArchiveReport} {place : Place} {archive : Bytes}
    (h : b.yield base earlier source = .ok (report, place, archive)) : b.Puts base sources place archive :=
  ⟨earlier.length, source, report, by simp [← hrest], by rw [← hrest, List.take_left, h]⟩

include hk hstop hp hc hrest hsuffix in
/-- What comes of a source where some sources have been converted, but for whether its output was there. -/
theorem resultOf_renewal {done : List Path} (hdone : ∀ other ∈ done, other ∈ sources) (index : Nat) {s : State}
    (h : b.Converted base done s.fs) (hd : s.fs.Distinct) :
    ∃ e s', b.resultOf index source (rival? b.settings earlier source) s = (e.map Prod.fst, s') ∧
      renewal e = renewal (b.yield base earlier source) ∧ Effect s.fs (b.yield base earlier source) s'.fs ∧
      s'.fs.Distinct ∧ ∀ delivered, e = .ok delivered → b.conversion source s.fs = .ok delivered := by
  unfold yield
  cases hr : rival? b.settings earlier source with
  | some first =>
    exact ⟨.error (conflictFailure b.settings source first), s, rfl, rfl, .refl _, hd, fun _ e => by cases e⟩
  | none =>
    have hsource : source ∈ sources := hrest ▸ List.mem_append_right _ List.mem_cons_self
    obtain ⟨s', hrun, heffect⟩ := runJob_conversion hk hstop hsuffix index source h.wellFormed
    have hrenewal := b.conversion_renewal hstop hp h.workingDirectory h.directory_iff
      (fun place => h.unmoved hdone hc (List.mem_cons_of_mem _ hsource))
      (fun place => h.unmoved hdone hc List.mem_cons_self)
    have hd' := runJob_distinct hk hstop index source hd
    rw [hrun] at hd'
    exact ⟨_, s', hrun, hrenewal, heffect.of_renewal hrenewal, hd', fun _ e => e⟩

/-- The archive of a source that is put again is there already. -/
theorem Converted.again {fs fs' : FileSystem} (hrest : earlier ++ source :: rest = sources)
    (h : b.Converted base sources fs) (heffect : Effect fs (b.yield base earlier source) fs') :
    b.Converted base sources fs' := by
  cases hy : b.yield base earlier source with
  | error e =>
    rw [hy] at heffect
    simp only [Effect] at heffect
    exact {
      wellFormed := heffect.wellFormed h.wellFormed
      workingDirectory := heffect.workingDirectory.trans h.workingDirectory
      archives := fun place archive hput => (heffect.get?_eq place).trans (h.archives place archive hput)
      elsewhere := fun place hno => (heffect.get?_eq place).trans (h.elsewhere place hno) }
  | ok delivered =>
    obtain ⟨report, place, archive⟩ := delivered
    rw [hy] at heffect
    obtain ⟨-, hchanges, hcontent, hw⟩ := heffect
    have hthere := h.archives place archive (puts_of_yield hrest hy)
    have hsame : ∀ other, fs'.get? other = fs.get? other := fun other => by
      by_cases e : other = place
      · rw [e, hcontent, hthere]
      · exact hchanges.elsewhere other e
    exact {
      wellFormed := hw
      workingDirectory := hchanges.workingDirectory.trans h.workingDirectory
      archives := fun place archive hput => (hsame place).trans (h.archives place archive hput)
      elsewhere := fun place hno => (hsame place).trans (h.elsewhere place hno) }

end Steps

section Twice

variable (hk : b.settings.backend.kind = .skeleton) (hstop : b.stopAfter = none)
  (hsuffix : IsSuffix b.settings.output.suffix)

include hk hstop hsuffix

/-- The first run: each source comes to what it yields, but for whether its output was there. -/
theorem run_first {fs : FileSystem} (hfs : fs.WellFormed) (hd : fs.Distinct)
    (hmade : (fs.makeDirectories b.destination).2 = .ok ())
    (hc : b.Clear (b.prepared fs) (b.destination :: sources) sources) :
    (b.run sources fs).1.length = sources.length ∧
      (∀ (i : Nat) (source : Path), sources[i]? = some source →
        ∃ r, (b.run sources fs).1[i]? = some ⟨source, r⟩ ∧ r.map ArchiveReport.renewed =
          ((b.yield (b.prepared fs) (sources.take i) source).map Prod.fst).map ArchiveReport.renewed) ∧
      b.Converted (b.prepared fs) sources (b.run sources fs).2.fs ∧ (b.run sources fs).2.fs.Distinct := by
  have hp := (prepared_grown (b := b) hfs).2
  refine @run_induct b sources (fun earlier fs' => b.Converted (b.prepared fs) earlier fs' ∧ fs'.Distinct)
    (fun earlier source r => r.map ArchiveReport.renewed =
      ((b.yield (b.prepared fs) earlier source).map Prod.fst).map ArchiveReport.renewed) ?_ fs hmade
    ⟨.nothing hp, hd.makeDirectories _⟩
  intro earlier source rest hrest index s h
  have hearlier : ∀ other ∈ earlier, other ∈ sources := fun other ho => hrest ▸ List.mem_append_left _ ho
  obtain ⟨e, s', hresult, hrenewal, heffect, hd', -⟩ :=
    resultOf_renewal hk hstop hsuffix hp hc hrest hearlier index h.1 h.2
  refine ⟨_, s', hresult, ?_, h.1.next heffect, hd'⟩
  rw [← renewal_report, hrenewal, renewal_report]

/-- Any further run: each source comes to what it yields, and its output is renewed. -/
theorem run_again {fs : FileSystem} (hp : base.WellFormed) (h : b.Converted base sources fs) (hd : fs.Distinct)
    (hthere : fs.makeDirectories b.destination = (fs, .ok ()))
    (hc : b.Clear base (b.destination :: sources) sources) :
    (b.run sources fs).1.length = sources.length ∧
      (∀ (i : Nat) (source : Path), sources[i]? = some source →
        ∃ r, (b.run sources fs).1[i]? = some ⟨source, r⟩ ∧ r =
          ((b.yield base (sources.take i) source).map Prod.fst).map ArchiveReport.renewed) ∧
      b.Converted base sources (b.run sources fs).2.fs ∧ (b.run sources fs).2.fs.Distinct := by
  have hprepared : b.prepared fs = fs := by rw [Batch.prepared, hthere]
  refine @run_induct b sources (fun _ fs' => b.Converted base sources fs' ∧ fs'.Distinct)
    (fun earlier source r => r = ((b.yield base earlier source).map Prod.fst).map ArchiveReport.renewed) ?_ fs
    (by rw [hthere]) (by rw [hprepared]; exact ⟨h, hd⟩)
  intro earlier source rest hrest index s h
  obtain ⟨e, s', hresult, hrenewal, heffect, hd', hconversion⟩ :=
    resultOf_renewal hk hstop hsuffix hp hc hrest (fun _ ho => ho) index h.1 h.2
  refine ⟨_, s', hresult, ?_, h.1.again hrest heffect, hd'⟩
  rw [← renewal_report, ← hrenewal, renewal_report]
  cases he : e with
  | error _ => rfl
  | ok delivered =>
    obtain ⟨report, place, archive⟩ := delivered
    -- what stands at the place is what the source yields
    obtain ⟨report', hy, -⟩ := renewal_eq_ok hrenewal.symm he
    have hold := h.1.archives place archive (puts_of_yield hrest hy)
    exact congrArg Except.ok (conversion_renewed hsuffix h.1.wellFormed (hconversion _ he) hold).symm

end Twice

end Runs

section Renewed

variable {b : Batch} (hk : b.settings.backend.kind = .skeleton) (hstop : b.stopAfter = none)
  (hsuffix : IsSuffix b.settings.output.suffix) {fs : FileSystem} (hfs : fs.Proper) {inputs sources : List Path}
  (hfound : Discovery.discover b.settings fs inputs = .ok sources)
  (hc : b.Clear (b.prepared fs) (b.destination :: inputs) sources)

include hsuffix hfs hfound hc in
/-- The ways to the sources and to the destination are clear once the destination was made. -/
theorem clear_prepared : b.Clear (b.prepared fs) (b.destination :: sources) sources := by
  obtain ⟨hgrown, hp⟩ := prepared_grown (b := b) hfs.toWellFormed
  have hnamed : ∀ place content, (b.prepared fs).get? place = some (.file content) →
      ∀ name ∈ place, IsName name ∧ IsSegment name := by
    intro place content hg
    rcases hgrown.added place _ hg with hg | hg | ⟨hno, -⟩
    · exact hfs.named place _ hg
    · cases hg
    · exact hno.elim
  have hinputs : b.Clear (b.prepared fs) inputs sources := fun way hw => hc way (List.mem_cons_of_mem _ hw)
  have hsources := hinputs.to_sources hsuffix hp (hfs.distinct.makeDirectories _) hnamed
    (discover_prepared hfs.toWellFormed hfs.distinct hfound)
  intro way hw
  rcases List.mem_cons.mp hw with rfl | hw
  · exact hc _ List.mem_cons_self
  · exact hsources way hw

/-- The directories for the destination stay while sources are converted. -/
theorem Converted.makeDirectories {b : Batch} {fs fs' : FileSystem} {ways sources : List Path} (hfs : fs.WellFormed)
    (hmade : (fs.makeDirectories b.destination).2 = .ok ()) (h : b.Converted (b.prepared fs) sources fs')
    (hc : b.Clear (b.prepared fs) (b.destination :: ways) sources) :
    fs'.makeDirectories b.destination = (fs', .ok ()) := by
  have hdone := isDirectory_of_made hfs (p := b.destination) (Prod.ext rfl hmade)
  refine makeDirectories_of_isDirectory (hdone.imp_right fun hdir => ?_)
  rw [isDirectory, stat, locate_congr h.workingDirectory (fun _ => h.directories)
    fun place => h.unmoved (fun _ ho => ho) hc List.mem_cons_self]
  exact hdir

include hk hstop hsuffix hfs hfound hc in
/-- A first run and a second into a destination that can be made. -/
theorem run_twice (hmade : (fs.makeDirectories b.destination).2 = .ok ()) :
    Discovery.discover b.settings (b.run sources fs).2.fs inputs = .ok sources ∧
      (b.run sources (b.run sources fs).2.fs).1 = (b.run sources fs).1.map Outcome.renewed ∧
      ∀ place, (b.run sources (b.run sources fs).2.fs).2.fs.get? place = (b.run sources fs).2.fs.get? place := by
  have hp := (prepared_grown (b := b) hfs.toWellFormed).2
  have hways := clear_prepared hsuffix hfs hfound hc
  obtain ⟨hlength, houtcomes, hconverted, hdistinct⟩ :=
    run_first hk hstop hsuffix hfs.toWellFormed hfs.distinct hmade hways
  have hthere := hconverted.makeDirectories hfs.toWellFormed hmade hways
  obtain ⟨hlength', houtcomes', hconverted', -⟩ := run_again hk hstop hsuffix hp hconverted hdistinct hthere hways
  refine ⟨?_, List.ext_getElem? fun i => ?_, fun place => ?_⟩
  · exact discover_converted hsuffix hconverted (hfs.distinct.makeDirectories _) hdistinct
      (fun way hw => hc way (List.mem_cons_of_mem _ hw)) (discover_prepared hfs.toWellFormed hfs.distinct hfound)
  · rw [List.getElem?_map]
    cases hi : sources[i]? with
    | none =>
      rw [List.getElem?_eq_none_iff] at hi
      rw [List.getElem?_eq_none (hlength.trans_le hi), List.getElem?_eq_none (hlength'.trans_le hi)]
      rfl
    | some source =>
      obtain ⟨r, ho, hr⟩ := houtcomes i source hi
      obtain ⟨r', ho', hr'⟩ := houtcomes' i source hi
      rw [ho, ho', hr', ← hr]
      rfl
  · by_cases hput : ∃ archive, b.Puts (b.prepared fs) sources place archive
    · obtain ⟨archive, hput⟩ := hput
      rw [hconverted'.archives place archive hput, hconverted.archives place archive hput]
    · have hno := fun archive hp => hput ⟨archive, hp⟩
      rw [hconverted'.elsewhere place hno, hconverted.elsewhere place hno]

end Renewed

/-- With the skeleton backend and nothing that stops it, a batch may be run again over what it has made, if no output
goes to a place on the way to an input or to the destination. The same archives are discovered; each comes to the
same, but that an output is renewed, or all fail as before if the destination cannot be made; and every file keeps the
content that the first run left. -/
theorem run_renewed {b : Batch} (hk : b.settings.backend.kind = .skeleton) (hstop : b.stopAfter = none)
    {fs : FileSystem} (hfs : fs.Proper) (hv : b.settings.validate fs = .ok ()) {inputs sources : List Path}
    (hfound : Discovery.discover b.settings fs inputs = .ok sources)
    (hc : b.Clear (b.prepared fs) (b.destination :: inputs) sources) :
    let first := b.run sources fs
    let second := b.run sources first.2.fs
    Discovery.discover b.settings first.2.fs inputs = .ok sources ∧
      ((fs.makeDirectories b.destination).2 = .ok () → second.1 = first.1.map Outcome.renewed) ∧
      (∀ e, (fs.makeDirectories b.destination).2 = .error e →
        first.1 = sources.map (fun source => ⟨source, .error (.io e)⟩) ∧
          ∃ e', second.1 = sources.map fun source => ⟨source, .error (.io e')⟩) ∧
      ∀ place, second.2.fs.fileAt? place = first.2.fs.fileAt? place := by
  intro first second
  cases hmade : (fs.makeDirectories b.destination).2 with
  | error e =>
    have hfirst : first = _ := run_unmade hmade sources
    obtain ⟨e', hagain⟩ := makeDirectories_fails_again hfs.toWellFormed
      (show fs.makeDirectories b.destination = (b.prepared fs, .error e) from Prod.ext rfl hmade)
    have hsecond : second = _ := (congrArg (fun s => b.run sources s.2.fs) hfirst).trans (run_unmade hagain sources)
    rw [hsecond, hfirst]
    refine ⟨discover_prepared hfs.toWellFormed hfs.distinct hfound, (fun h => by cases h), fun e'' h => ?_, ?_⟩
    · cases h
      exact ⟨rfl, e', rfl⟩
    · exact (prepared_grown (prepared_grown hfs.toWellFormed).2).1.fileAt?_eq
  | ok _ =>
    obtain ⟨hfound', houtcomes, hsame⟩ :=
      run_twice hk hstop (Settings.isSuffix_of_validate hv) hfs hfound hc hmade
    refine ⟨hfound', fun _ => houtcomes, (fun e h => by cases h), fun place => ?_⟩
    rw [fileAt?, fileAt?, hsame]

/-- A destination inside the directory that is scanned. -/
theorem scanned_destination_renewed :
    let b := simpleBatch "in/out" "jar"
    let fs := holding [(["in"], .directory), (["in", "a.jar"], simpleArchive)]
    let sources := [Path.ofText "in/a.jar"]
    let first := b.run sources fs
    let second := b.run sources first.2.fs
    Discovery.discover b.settings fs [Path.ofText "in"] = .ok sources ∧
      first.1.map attachmentOf? = [some .created] ∧
      Discovery.discover b.settings first.2.fs [Path.ofText "in"] = .ok sources ∧
      second.1.map attachmentOf? = [some .updated] := by
  intro b fs sources first second
  have hfs : fs.Proper :=
    (holding_wellFormed (by decide +kernel)).proper (by decide +kernel) (by decide +kernel)
  have hv : b.settings.validate fs = .ok () := simpleBatch_valid (by simp only [fs]; cbv)
  have hfound : Discovery.discover b.settings fs [Path.ofText "in"] = .ok sources := by
    simp only [b, fs, sources]
    cbv
  have hc : b.Clear (b.prepared fs) (b.destination :: [Path.ofText "in"]) sources := by
    refine clear_iff.mpr ?_
    simp only [b, fs, sources]
    cbv
  have hmade : (fs.makeDirectories b.destination).2 = .ok () := by
    simp only [b, fs]
    cbv
  have hcreated : first.1.map attachmentOf? = [some .created] := by
    simp only [first, b, fs, sources]
    cbv
  obtain ⟨hagain, hrenewed, -⟩ := run_renewed rfl rfl hfs hv hfound hc
  refine ⟨hfound, hcreated, hagain, ?_⟩
  have hattachment : attachmentOf? ∘ Outcome.renewed = (Option.map fun _ => .updated) ∘ attachmentOf? := by
    funext o
    simp only [Function.comp_apply]
    unfold attachmentOf? Outcome.renewed
    cases o.result <;> rfl
  rw [hrenewed hmade, List.map_map, hattachment, ← List.map_map, hcreated]
  rfl

/-- A valid batch, over a proper file system, of sources that were discovered and of which none is an output. -/
structure Sound (b : Batch) (fs : FileSystem) (inputs sources : List Path) : Prop where
  skeleton : b.settings.backend.kind = .skeleton
  unstopped : b.stopAfter = none
  proper : fs.Proper
  valid : b.settings.validate fs = .ok ()
  found : Discovery.discover b.settings fs inputs = .ok sources
  no_source : b.noSourceIsOutput (b.prepared fs) sources = true

/-- An output may replace the link that leads to the destination, or the one that leads to an input. A second run then
fails, or finds something else, though no source is an output. -/
theorem rerun_behind_output :
    (let b := simpleBatch "out/a-sources.jar" "jar"
      let fs := holding [(["a.jar"], simpleArchive), (["out"], .directory),
        (["out", "a-sources.jar"], .link (Path.ofText "."))]
      let sources := [Path.ofText "a.jar"]
      Sound b fs sources sources ∧
        (b.run sources fs).1.map attachmentOf? = [some .updated] ∧
        (b.run sources (b.run sources fs).2.fs).1.map attachmentOf? = [none]) ∧
    (let b := simpleBatch "out" "jar"
      let fs := holding [(["a.jar"], simpleArchive), (["more"], .directory), (["more", "b.jar"], simpleArchive),
        (["out"], .directory), (["out", "a-sources.jar"], .link (Path.ofText "../more"))]
      let inputs := [Path.ofText "a.jar", Path.ofText "out/a-sources.jar"]
      let sources := [Path.ofText "a.jar", Path.ofText "out/a-sources.jar/b.jar"]
      Sound b fs inputs sources ∧ Discovery.discover b.settings (b.run sources fs).2.fs inputs = .ok inputs) := by
  constructor
  · intro b fs sources
    refine ⟨⟨rfl, rfl, ?_, simpleBatch_valid ?_, ?_, ?_⟩, ?_, ?_⟩
    · exact (holding_wellFormed (by decide +kernel)).proper (by decide +kernel) (by decide +kernel)
    all_goals
      simp only [b, fs, sources]
      cbv
  · intro b fs inputs sources
    refine ⟨⟨rfl, rfl, ?_, simpleBatch_valid ?_, ?_, ?_⟩, ?_⟩
    · exact (holding_wellFormed (by decide +kernel)).proper (by decide +kernel) (by decide +kernel)
    all_goals
      simp only [b, fs, inputs, sources]
      cbv

end Batch

end SourceJar
