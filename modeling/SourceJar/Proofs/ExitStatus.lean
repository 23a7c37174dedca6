import SourceJar.Batch.Report
import SourceJar.Proofs.Answering
import SourceJar.Proofs.Cancelling

/-!
What the exit status of a batch says.

The status is read off sums over the outcomes, so it says which kinds of outcomes there are (`exitStatus_ofOutcomes`). An
outcome with a report stands for a traversal that has handed over every unit, has noted the refused ones, and whose
archive was moved to the output's path (`run_complete`); there it stays if the programs of the batch leave it alone
(`output_stays`). Together: `exitStatus_run`.
-/

namespace SourceJar

open Archive FileSystem

/-! ## Sums over outcomes -/

namespace EntryStatus

def isSucceeded : EntryStatus → Bool
  | .succeeded _ => true
  | _ => false

def isFailed : EntryStatus → Bool
  | .failed _ => true
  | _ => false

def isCancelled : EntryStatus → Bool
  | .cancelled => true
  | _ => false

/-- How many names of units are noted as failed. -/
def noted : EntryStatus → Nat
  | .succeeded report => report.failed.length
  | _ => 0

end EntryStatus

namespace BatchReport

/-- The sums count the entries of each kind and the failed units that the reports note. -/
theorem foldl_count (entries : List ReportEntry) (s : BatchSummary) :
    let total := entries.foldl .count s
    total.archivesTotal = s.archivesTotal + entries.length ∧
      total.archivesSucceeded = s.archivesSucceeded + entries.countP (·.status.isSucceeded) ∧
      total.archivesFailed = s.archivesFailed + entries.countP (·.status.isFailed) ∧
      total.archivesCancelled = s.archivesCancelled + entries.countP (·.status.isCancelled) ∧
      total.unitsFailed = s.unitsFailed + (entries.map (·.status.noted)).sum := by
  induction entries generalizing s with
  | nil => exact ⟨rfl, rfl, rfl, rfl, rfl⟩
  | cons entry rest ih =>
    obtain ⟨source, status⟩ := entry
    obtain ⟨htotal, hsucceeded, hfailed, hcancelled, hunits⟩ := ih (s.count ⟨source, status⟩)
    simp only [List.foldl_cons, htotal, hsucceeded, hfailed, hcancelled, hunits, List.length_cons, List.countP_cons,
      List.map_cons, List.sum_cons]
    cases status <;>
      simp [BatchSummary.count, EntryStatus.isSucceeded, EntryStatus.isFailed, EntryStatus.isCancelled,
        EntryStatus.noted] <;> omega

/-- Every entry is of one kind. -/
theorem countP_kinds (entries : List ReportEntry) :
    entries.countP (·.status.isSucceeded) + entries.countP (·.status.isFailed) +
      entries.countP (·.status.isCancelled) = entries.length := by
  induction entries with
  | nil => rfl
  | cons entry rest ih =>
    obtain ⟨source, status⟩ := entry
    simp only [List.countP_cons, List.length_cons, ← ih]
    cases status <;> simp [EntryStatus.isSucceeded, EntryStatus.isFailed, EntryStatus.isCancelled] <;> omega

/-- What a report says of an outcome. -/
theorem status_ofOutcome (o : Outcome) :
    (∀ report, (ReportEntry.ofOutcome o).status = .succeeded report ↔ o.result = .ok report) ∧
      ((ReportEntry.ofOutcome o).status = .cancelled ↔ o.result = .error .cancelled) ∧
      ∀ message, (ReportEntry.ofOutcome o).status = .failed message ↔
        ∃ e, e ≠ .cancelled ∧ o.result = .error e ∧ message = e.userMessage := by
  obtain ⟨source, e | report⟩ := o
  · by_cases he : e = .cancelled
    · subst he
      simp [ReportEntry.ofOutcome]
    · have hstatus : (ReportEntry.ofOutcome ⟨source, .error e⟩).status = .failed e.userMessage := by
        cases e <;> first | rfl | exact absurd rfl he
      simp [hstatus, he, eq_comm]
  · simp [ReportEntry.ofOutcome]

section Kinds

variable {o : Outcome}

theorem isCancelled_iff : (ReportEntry.ofOutcome o).status.isCancelled = true ↔ o.result = .error .cancelled := by
  rw [← (status_ofOutcome o).2.1]
  cases (ReportEntry.ofOutcome o).status <;> simp [EntryStatus.isCancelled]

theorem isFailed_iff :
    (ReportEntry.ofOutcome o).status.isFailed = true ↔ ∃ e, e ≠ .cancelled ∧ o.result = .error e := by
  have h := (status_ofOutcome o).2.2
  constructor
  · intro hf
    cases hs : (ReportEntry.ofOutcome o).status with
    | failed message =>
      obtain ⟨e, he, hr, -⟩ := (h message).mp hs
      exact ⟨e, he, hr⟩
    | _ => rw [hs] at hf; cases hf
  · rintro ⟨e, he, hr⟩
    rw [(h e.userMessage).mpr ⟨e, he, hr, rfl⟩]
    rfl

theorem noted_pos_iff :
    0 < (ReportEntry.ofOutcome o).status.noted ↔ ∃ report, o.result = .ok report ∧ report.failed ≠ [] := by
  have h := (status_ofOutcome o).1
  constructor
  · intro hn
    cases hs : (ReportEntry.ofOutcome o).status with
    | succeeded report =>
      rw [hs] at hn
      exact ⟨report, (h report).mp hs, List.length_pos_iff.mp hn⟩
    | _ => rw [hs] at hn; cases hn
  · rintro ⟨report, hr, hn⟩
    rw [(h report).mpr hr]
    exact List.length_pos_iff.mpr hn

end Kinds

/-- The exit status says which of the sums is the first that is not zero. -/
theorem exitStatus_iff (r : BatchReport) :
    (r.exitStatus = 130 ↔ 0 < r.summary.archivesCancelled) ∧
      (r.exitStatus = 3 ↔ ¬0 < r.summary.archivesCancelled ∧ 0 < r.summary.archivesFailed) ∧
      (r.exitStatus = 2 ↔ ¬0 < r.summary.archivesCancelled ∧ ¬0 < r.summary.archivesFailed ∧
        0 < r.summary.unitsFailed) ∧
      (r.exitStatus = 0 ↔ ¬0 < r.summary.archivesCancelled ∧ ¬0 < r.summary.archivesFailed ∧
        ¬0 < r.summary.unitsFailed) := by
  unfold exitStatus exitCancelled exitFailedArchives exitFailedUnits exitSuccess
  by_cases hc : 0 < r.summary.archivesCancelled
  · simp [hc]
  by_cases hf : 0 < r.summary.archivesFailed
  · simp [hc, hf]
  by_cases hu : 0 < r.summary.unitsFailed
  · simp [hc, hf, hu]
  · simp [hc, hf, hu]

/-- The exit status says what the worst is among the outcomes. -/
theorem exitStatus_ofOutcomes (outcomes : List Outcome) (destination : Path) (backend : BackendKind) (duration : Nat) :
    let status := (ofOutcomes outcomes destination backend duration).exitStatus
    let cancelled := ∃ o ∈ outcomes, o.result = .error .cancelled
    let failed := ∃ o ∈ outcomes, ∃ e, e ≠ .cancelled ∧ o.result = .error e
    let refused := ∃ o ∈ outcomes, ∃ report, o.result = .ok report ∧ report.failed ≠ []
    (status = 130 ↔ cancelled) ∧ (status = 3 ↔ ¬cancelled ∧ failed) ∧ (status = 2 ↔ ¬cancelled ∧ ¬failed ∧ refused) ∧
      (status = 0 ↔ ¬cancelled ∧ ¬failed ∧ ¬refused) := by
  intro status cancelled failed refused
  obtain ⟨-, -, hfailed, hcancelled, hunits⟩ := foldl_count (outcomes.map ReportEntry.ofOutcome) { duration }
  have hc : 0 < (ofOutcomes outcomes destination backend duration).summary.archivesCancelled ↔ cancelled := by
    rw [ofOutcomes, hcancelled, Nat.zero_add, List.countP_pos_iff]
    simp only [List.mem_map, exists_exists_and_eq_and, isCancelled_iff, cancelled]
  have hf : 0 < (ofOutcomes outcomes destination backend duration).summary.archivesFailed ↔ failed := by
    rw [ofOutcomes, hfailed, Nat.zero_add, List.countP_pos_iff]
    simp only [List.mem_map, exists_exists_and_eq_and, isFailed_iff, failed]
  have hu : 0 < (ofOutcomes outcomes destination backend duration).summary.unitsFailed ↔ refused := by
    rw [ofOutcomes, hunits, Nat.zero_add, List.sum_pos_iff_exists_pos_nat]
    simp only [List.mem_map, exists_exists_and_eq_and, noted_pos_iff, refused]
  have h := exitStatus_iff (ofOutcomes outcomes destination backend duration)
  rwa [hc, hf, hu] at h

end BatchReport

namespace Batch

open Traversal (answered run_ends noteAnswer written steps)

/-! ## What is behind an outcome -/

/-- The traversal that a batch comes to for a source: its job, its backend and the state that it starts in. -/
def traversalAt? (b : Batch) (sources : List Path) (fs : FileSystem) (i : Nat) : Option (Job × Backend × State) :=
  match (fs.makeDirectories b.destination).2, sources[i]? with
  | .ok (), some source =>
    b.traversalFor? i source (rival? b.settings (sources.take i) source) (b.stateAt sources fs i)
  | _, _ => none

/-- What the backend answers to the units that are handed to it for a source of a batch. -/
def answersAt (b : Batch) (sources : List Path) (fs : FileSystem) (i : Nat) :
    List (Entry × Except UnitFailure String) :=
  match b.traversalAt? sources fs i with
  | some (job, backend, start) => answered (b.host backend job) job.root start
  | none => []

section Outcomes

variable {b : Batch} {fs : FileSystem} {sources : List Path}

/-- The outcomes of a batch are those of its sources, in order. -/
theorem run_sources : (b.run sources fs).1.map Outcome.source = sources := by
  rcases hmade : fs.makeDirectories b.destination with ⟨made, e | _⟩
  · rw [run, hmade]
    simp [Function.comp_def]
  · have hmade' : (fs.makeDirectories b.destination).2 = .ok () := by rw [hmade]
    have hlength := (@run_induct b sources (fun _ _ => True) (fun _ _ _ => True)
      (fun _ _ _ _ _ _ _ => ⟨_, _, rfl, trivial, trivial⟩) fs hmade' trivial).1
    refine List.ext_getElem? fun i => ?_
    rw [List.getElem?_map]
    cases hi : sources[i]? with
    | none =>
      rw [List.getElem?_eq_none (hlength ▸ List.getElem?_eq_none_iff.mp hi)]
      rfl
    | some source =>
      obtain ⟨r, s', -, hr, -⟩ := run_step hmade' hi
      rw [hr]
      rfl

/-- A batch that has an outcome with a report has made its destination. -/
theorem made_of_reported {i : Nat} {source : Path} {report : ArchiveReport}
    (h : (b.run sources fs).1[i]? = some ⟨source, .ok report⟩) : (fs.makeDirectories b.destination).2 = .ok () := by
  rcases hmade : fs.makeDirectories b.destination with ⟨made, e | _⟩
  · rw [run, hmade] at h
    obtain ⟨other, -, e⟩ := List.mem_map.mp (List.mem_of_getElem? h)
    cases e
  · rfl

/-- An outcome with a report is the result of its source's turn, which no earlier source disputed. -/
theorem reported_step {i : Nat} {source : Path} {report : ArchiveReport}
    (h : (b.run sources fs).1[i]? = some ⟨source, .ok report⟩) :
    rival? b.settings (sources.take i) source = none ∧ ∃ s',
      b.resultOf i source none (b.stateAt sources fs i) = (.ok report, s') ∧ (b.stateAt sources fs (i + 1)).fs = s'.fs := by
  have hmade := made_of_reported h
  obtain ⟨r, s', hresult, hr, hnext⟩ := run_step hmade (source_of_outcome hmade h)
  rw [h] at hr
  obtain ⟨-, rfl⟩ := Outcome.mk.inj (Option.some.inj hr)
  cases hrival : rival? b.settings (sources.take i) source with
  | none =>
    rw [hrival] at hresult
    exact ⟨rfl, s', hresult, by rw [hnext]; rfl⟩
  | some first =>
    rw [hrival] at hresult
    cases hresult

end Outcomes

/-- What is behind an outcome with a report: the archive was opened as `root`, its units were handed over, the names that
failed are those of the refused ones, and the draft `d` that the traversal has written was moved to the output's path. -/
structure Complete (b : Batch) (sources : List Path) (fs : FileSystem) (i : Nat) (source : Path)
    (report : ArchiveReport) (root : Entry) (d : Draft) : Prop where
  opened : openArchive (b.stateAt sources fs i).fs source = .ok root
  handed : (b.answersAt sources fs i).map Prod.fst = root.units
  failed : ∀ name, name ∈ report.failed ↔
    ∃ unit failure, (unit, .error failure) ∈ b.answersAt sources fs i ∧ unit.name = name
  written : d.entries = firstNew [] (written (steps root) (b.answersAt sources fs i))
  named : outputName source b.settings.output.suffix = .ok report.outputName ∧
    report.outputPath = b.destination.join (Path.ofText report.outputName)
  moved : ∃ (fs' : FileSystem) (place : Place), (fs'.put place (.file d.encode)).moveFile place report.outputPath =
    .ok (b.stateAt sources fs (i + 1)).fs

section Complete

variable {b : Batch} {fs : FileSystem} {sources : List Path} {i : Nat} {source : Path} {report : ArchiveReport}

theorem run_complete (h : (b.run sources fs).1[i]? = some ⟨source, .ok report⟩) :
    ∃ root d, b.Complete sources fs i source report root d ∧
      (b.Tidy → IsSuffix b.settings.output.suffix → fs.WellFormed →
        ∃ grown spot, b.outputPlace? (b.stateAt sources fs i).fs source = some spot.place ∧
          PutAt report.outputPath d.encode (b.stateAt sources fs i).fs grown spot (b.stateAt sources fs (i + 1)).fs) := by
  have hmade := made_of_reported h
  obtain ⟨hrival, s', hresult, hnext⟩ := reported_step h
  obtain ⟨title, job, backend, start, t, hopen, htraversal, hrun, rfl, hmoved, hput⟩ := resultOf_ok hresult
  have hanswers : b.answersAt sources fs i = answered (b.host backend job) job.root start := by
    rw [answersAt, traversalAt?, hmade, source_of_outcome hmade h]
    simp only [hrival, htraversal]
  obtain ⟨hhanded, hfailed, hwritten⟩ := run_ends hrun
  rw [← hanswers] at hhanded hfailed hwritten
  obtain ⟨root, name, hroot, hname, rfl⟩ := openJob_eq_ok hopen
  refine ⟨root, t.draft, ⟨hroot, hhanded, fun name => ?_, hwritten, ⟨hname, rfl⟩, ?_⟩, fun hb hsuffix hfs => ?_⟩
  · rw [reportOf, hfailed, Traversal.mem_foldl_noteAnswer]
    simp
  · rw [hnext]
    exact hmoved
  · rw [hnext]
    exact hput hb hsuffix (stateAt_wellFormed hmade hb hfs i)

end Complete

/-! ## Outputs stay where they are put -/

section Stays

variable {b : Batch} {fs : FileSystem} {sources : List Path} (hmade : (fs.makeDirectories b.destination).2 = .ok ())
  (hb : b.Tidy) (hsuffix : IsSuffix b.settings.output.suffix) (hfs : fs.WellFormed)

include hmade hb hsuffix hfs

/-- An output that was put at its place is still there at every later source. -/
theorem output_stays {i n : Nat} (hin : i < n) {source : Path} (hi : sources[i]? = some source) {place : Place}
    {archive : Bytes} (hplace : b.outputPlace? (b.stateAt sources fs i).fs source = some place)
    (hput : (b.stateAt sources fs (i + 1)).fs.get? place = some (.file archive)) :
    (b.stateAt sources fs n).fs.get? place = some (.file archive) := by
  induction n, hin using Nat.le_induction with
  | base => exact hput
  | succ n hin ih =>
    cases hn : sources[n]? with
    | none => rwa [stateAt_past hn]
    | some other =>
      have hw : (b.stateAt sources fs n).fs.WellFormed := stateAt_wellFormed hmade hb hfs n
      obtain ⟨r, s', hresult, -, hnext⟩ := run_step hmade hn
      rw [hnext]
      cases hr : rival? b.settings (sources.take n) other with
      | some first =>
        rw [hr] at hresult
        obtain ⟨-, rfl⟩ := Prod.mk.inj hresult
        exact ih
      | none =>
        rw [hr] at hresult
        cases r with
        | error e => exact (resultOf_failed hb hw hresult).kept place _ ih
        | ok report =>
          obtain ⟨_, _, _, _, _, _, _, _, _, _, hother⟩ := resultOf_ok hresult
          obtain ⟨grown, spot, hspot, hput⟩ := hother hb hsuffix hw
          obtain ⟨name, -, hclaim, -⟩ := outputPlace?_eq_some_iff.mp hplace
          have hmem : source ∈ sources.take n :=
            List.mem_of_getElem? ((List.getElem?_take_of_lt (Nat.lt_of_succ_le hin)).trans hi)
          have hne : place ≠ spot.place := by
            rintro rfl
            exact claim?_ne_of_rival? hr hmem hclaim ((claim?_eq_of_outputPlace? hspot hplace).trans hclaim)
          have hworked : Worked (· = spot.place) (b.stateAt sources fs n).fs s'.fs := .of_putAt hput rfl
          exact hworked.kept place _ hne ih

/-- Where the output of a source goes is known from the start. -/
theorem outputPlace?_prepared {i : Nat} {source : Path} {place : Place}
    (hplace : b.outputPlace? (b.stateAt sources fs i).fs source = some place) :
    b.outputPlace? (b.prepared fs) source = some place := by
  have hprepared : fs.makeDirectories b.destination = (b.prepared fs, .ok ()) := Prod.ext rfl hmade
  obtain ⟨directory, hl⟩ := makeDirectories_leads hfs hprepared
  have hp : (b.prepared fs).WellFormed := (makeDirectories_grown hfs NoScratch b.destination).2
  have hworked : Worked (fun _ => True) (b.prepared fs) (b.stateAt sources fs i).fs := by
    rw [stateAt, run_made hmade]
    exact (runFrom_worked hb hsuffix hp hl 0 _ (fun _ _ _ _ => trivial) hp (.of_grown (.refl NoScratch _))).2
  obtain ⟨name, directory', hclaim, hd, rfl⟩ := outputPlace?_eq_some_iff.mp hplace
  have hw : (b.stateAt sources fs i).fs.WellFormed := stateAt_wellFormed hmade hb hfs i
  exact outputPlace?_eq_some_iff.mpr ⟨name, directory', hclaim, hworked.outputDirectory? hp hw hl hd, rfl⟩

end Stays

/-! ## The exit status -/

section Status

variable {b : Batch} {fs : FileSystem} {sources : List Path}

/-- A source for which a unit was answered was traversed. -/
theorem exists_source_of_answer {i : Nat} {answer : Entry × Except UnitFailure String}
    (h : answer ∈ b.answersAt sources fs i) : ∃ source, sources[i]? = some source := by
  cases hi : sources[i]? with
  | some source => exact ⟨source, rfl⟩
  | none =>
    have hnone : b.traversalAt? sources fs i = none := by
      rw [traversalAt?, hi]
      cases (fs.makeDirectories b.destination).2 <;> rfl
    rw [answersAt, hnone] at h
    cases h

section Good

variable (hc : ¬∃ o ∈ (b.run sources fs).1, o.result = .error .cancelled)
  (hf : ¬∃ o ∈ (b.run sources fs).1, ∃ e, e ≠ .cancelled ∧ o.result = .error e)

include hc hf

/-- If no source was cancelled or failed, each has a report. -/
theorem exists_report {i : Nat} {source : Path} (hi : sources[i]? = some source) :
    ∃ report, (b.run sources fs).1[i]? = some ⟨source, .ok report⟩ := by
  rw [← @run_sources b fs sources, List.getElem?_map] at hi
  obtain ⟨⟨source, r⟩, ho, rfl⟩ := Option.map_eq_some_iff.mp hi
  have hm := List.mem_of_getElem? ho
  cases r with
  | ok report => exact ⟨report, ho⟩
  | error e =>
    by_cases he : e = .cancelled
    · exact absurd ⟨_, hm, congrArg Except.error he⟩ hc
    · exact absurd ⟨_, hm, e, he, rfl⟩ hf

/-- If no source was cancelled or failed, the reports note a unit exactly if one was refused. -/
theorem noted_iff_refused :
    (∃ o ∈ (b.run sources fs).1, ∃ report, o.result = .ok report ∧ report.failed ≠ []) ↔
      ∃ i unit failure, (unit, .error failure) ∈ b.answersAt sources fs i := by
  constructor
  · rintro ⟨⟨source, r⟩, hm, report, rfl, hne⟩
    obtain ⟨i, ho⟩ := List.mem_iff_getElem?.mp hm
    obtain ⟨root, d, hcomplete, -⟩ := run_complete ho
    obtain ⟨name, hname⟩ := List.exists_mem_of_ne_nil _ hne
    obtain ⟨unit, failure, h, -⟩ := (hcomplete.failed name).mp hname
    exact ⟨i, unit, failure, h⟩
  · rintro ⟨i, unit, failure, h⟩
    obtain ⟨source, hi⟩ := exists_source_of_answer h
    obtain ⟨report, ho⟩ := exists_report hc hf hi
    obtain ⟨root, d, hcomplete, -⟩ := run_complete ho
    have hname := (hcomplete.failed unit.name).mpr ⟨unit, failure, h, rfl⟩
    exact ⟨_, List.mem_of_getElem? ho, report, rfl, List.ne_nil_of_mem hname⟩

/-- If no source was cancelled or failed, the archive of each stands at the place of its output after the batch, and at
that of no other, provided that the programs of the batch touch no file but their copies. -/
theorem outputs_stand (hb : b.Tidy) (hv : b.settings.validate fs = .ok ()) (hfs : fs.WellFormed) {i : Nat}
    {source : Path} {report : ArchiveReport} (h : (b.run sources fs).1[i]? = some ⟨source, .ok report⟩)
    {d : Draft} {grown : FileSystem} {spot : Spot}
    (hplace : b.outputPlace? (b.stateAt sources fs i).fs source = some spot.place)
    (hput : PutAt report.outputPath d.encode (b.stateAt sources fs i).fs grown spot (b.stateAt sources fs (i + 1)).fs) :
    b.outputPlace? (b.prepared fs) source = some spot.place ∧
      (b.run sources fs).2.fs.fileAt? spot.place = some d.encode ∧
      ∀ j other, j ≠ i → sources[j]? = some other → b.outputPlace? (b.prepared fs) other ≠ some spot.place := by
  have hsuffix := Settings.isSuffix_of_validate hv
  have hmade := made_of_reported h
  have hi := source_of_outcome hmade h
  have hlength : i < sources.length := (List.getElem?_eq_some_iff.mp hi).1
  refine ⟨outputPlace?_prepared hmade hb hsuffix hfs hplace, ?_, fun j other hij hj hother => ?_⟩
  · rw [run_eq_stateAt, fileAt?, output_stays hmade hb hsuffix hfs hlength hi hplace hput.content]
  · obtain ⟨report', h'⟩ := exists_report hc hf hj
    obtain ⟨name, -, hclaim, -⟩ := outputPlace?_eq_some_iff.mp hplace
    refine claim?_ne (Ne.symm hij) hi hj (reported_step h).1 (reported_step h').1 hclaim ?_
    exact (claim?_eq_of_outputPlace? hother hplace).trans hclaim

end Good

end Status

/-- What a report on a batch says, and what its exit status stands for. It is 130 exactly if some source was cancelled,
otherwise 3 exactly if another failed, otherwise 2 exactly if some unit was refused, and otherwise 0. With 0, every unit
of every source, as it was when its job opened it, was answered with a text, and the archive of the texts was moved to
the output's path; and there it stands after the batch, alone at its place, if the settings are valid and the programs of
the batch touch no file but their copies. The sums add up, and the report goes through the sources in order. -/
theorem exitStatus_run (b : Batch) (sources : List Path) (fs : FileSystem) (duration : Nat) :
    let outcomes := (b.run sources fs).1
    let report := BatchReport.ofOutcomes outcomes b.destination b.settings.backend.kind duration
    let cancelled := ∃ o ∈ outcomes, o.result = .error .cancelled
    let failed := ∃ o ∈ outcomes, ∃ e, e ≠ .cancelled ∧ o.result = .error e
    let refused := ∃ i unit failure, (unit, .error failure) ∈ b.answersAt sources fs i
    (report.exitStatus = 130 ↔ cancelled) ∧
      (report.exitStatus = 3 ↔ ¬cancelled ∧ failed) ∧
      (report.exitStatus = 2 ↔ ¬cancelled ∧ ¬failed ∧ refused) ∧
      (report.exitStatus = 0 ↔ ¬cancelled ∧ ¬failed ∧ ¬refused) ∧
      (report.exitStatus = 0 → ∀ (i : Nat) (source : Path), sources[i]? = some source → ∃ r root d,
        outcomes[i]? = some ⟨source, .ok r⟩ ∧ b.Complete sources fs i source r root d ∧
        (∀ answer ∈ b.answersAt sources fs i, ∃ text, answer.2 = .ok text) ∧
        (b.Tidy → b.settings.validate fs = .ok () → fs.WellFormed →
          ∃ place, b.outputPlace? (b.prepared fs) source = some place ∧
            (b.run sources fs).2.fs.fileAt? place = some d.encode ∧
            ∀ j other, j ≠ i → sources[j]? = some other → b.outputPlace? (b.prepared fs) other ≠ some place)) ∧
      report.summary.archivesTotal = sources.length ∧
      report.summary.archivesSucceeded + report.summary.archivesFailed + report.summary.archivesCancelled =
        sources.length ∧
      report.archives.map ReportEntry.source = sources ∧
      ∀ (i : Nat) (o : Outcome), outcomes[i]? = some o → ∃ entry, report.archives[i]? = some entry ∧
        (∀ r, entry.status = .succeeded r ↔ o.result = .ok r) ∧
        (entry.status = .cancelled ↔ o.result = .error .cancelled) ∧
        ∀ message, entry.status = .failed message ↔
          ∃ e, e ≠ .cancelled ∧ o.result = .error e ∧ message = e.userMessage := by
  intro outcomes report cancelled failed refused
  obtain ⟨hcancelled, hfailed, hunits, hgood⟩ := BatchReport.exitStatus_ofOutcomes outcomes b.destination
    b.settings.backend.kind duration
  obtain ⟨htotal, hsucceeded, hfailures, hcancels, -⟩ :=
    BatchReport.foldl_count (outcomes.map ReportEntry.ofOutcome) { duration }
  have hsources : outcomes.map Outcome.source = sources := run_sources
  have hlength : outcomes.length = sources.length := by rw [← hsources, List.length_map]
  refine ⟨hcancelled, hfailed, hunits.trans ?_, hgood.trans ?_, fun hzero i source hi => ?_, ?_, ?_, ?_, ?_⟩
  · exact and_congr_right fun hc => and_congr_right fun hf => noted_iff_refused hc hf
  · exact and_congr_right fun hc => and_congr_right fun hf => not_congr (noted_iff_refused hc hf)
  · obtain ⟨hc, hf, hnoted⟩ := hgood.mp hzero
    obtain ⟨r, ho⟩ := exists_report hc hf hi
    obtain ⟨root, d, hcomplete, hput⟩ := run_complete ho
    refine ⟨r, root, d, ho, hcomplete, fun answer hanswer => ?_, fun hb hv hfs => ?_⟩
    · rcases answer with ⟨unit, failure | text⟩
      · exact absurd ((noted_iff_refused hc hf).mpr ⟨i, unit, failure, hanswer⟩) hnoted
      · exact ⟨text, rfl⟩
    · obtain ⟨grown, spot, hplace, hput⟩ := hput hb (Settings.isSuffix_of_validate hv) hfs
      exact ⟨spot.place, outputs_stand hc hf hb hv hfs ho hplace hput⟩
  · refine htotal.trans ?_
    rw [List.length_map, hlength]
    exact Nat.zero_add _
  · simp only [report, BatchReport.ofOutcomes, hsucceeded, hfailures, hcancels, Nat.zero_add]
    rw [BatchReport.countP_kinds, List.length_map, hlength]
  · refine Eq.trans ?_ hsources
    exact List.map_map
  · intro i o ho
    refine ⟨.ofOutcome o, ?_, BatchReport.status_ofOutcome o⟩
    simp only [report, BatchReport.ofOutcomes, List.getElem?_map, ho, Option.map_some]

theorem commandBatch_valid {programs : Programs} {fs : FileSystem} (h : fs.isFile (Path.ofText "out") = false) :
    (commandBatch programs).settings.validate fs = .ok () := by
  have hcommand : (commandBatch programs).settings.hasCommand = true := rfl
  simp only [commandBatch] at hcommand
  simp [Settings.validate, commandBatch, hcommand, h]

theorem out_vacant (first second : Inode) :
    (holding [(["a.jar"], first), (["b.jar"], second)]).isFile (Path.ofText "out") = false := by cbv

theorem tidy_commandBatch : (commandBatch fun _ _ _ fs => (.ok {}, fs)).Tidy := by
  intro fs fs' backend h
  unfold Backend.make at h
  simp only [commandBatch] at h
  split at h <;> cases h
  exact fun _ _ => .refl _

/-- Two sources whose units are all answered: their archives stand at two places. -/
theorem zero_with_outputs :
    let b := commandBatch fun _ _ _ fs => (.ok {}, fs)
    let fs := holding [(["a.jar"], twoClasses), (["b.jar"], twoClasses)]
    let sources := [Path.ofText "a.jar", Path.ofText "b.jar"]
    let report := BatchReport.ofOutcomes (b.run sources fs).1 b.destination b.settings.backend.kind 0
    report.exitStatus = 0 ∧ report.summary.archivesTotal = 2 ∧ b.Tidy ∧ b.settings.validate fs = .ok () ∧
      fs.WellFormed ∧ ∃ place place' d d', (b.run sources fs).2.fs.fileAt? place = some (Draft.encode d) ∧
        (b.run sources fs).2.fs.fileAt? place' = some (Draft.encode d') ∧ place ≠ place' := by
  intro b fs sources report
  have hzero : report.exitStatus = 0 := by
    simp only [report, b, fs, sources]
    cbv
  have hvalid : b.settings.validate fs = .ok () := commandBatch_valid (out_vacant ..)
  have htidy : b.Tidy := tidy_commandBatch
  have hfs : fs.WellFormed := holding_wellFormed (by decide +kernel)
  obtain ⟨-, -, -, -, hall, htotal, -⟩ := exitStatus_run b sources fs 0
  obtain ⟨-, -, d, -, -, -, hstands⟩ := hall hzero 0 (Path.ofText "a.jar") rfl
  obtain ⟨-, -, d', -, -, -, hstands'⟩ := hall hzero 1 (Path.ofText "b.jar") rfl
  obtain ⟨place, -, hfile, halone⟩ := hstands htidy hvalid hfs
  obtain ⟨place', hplace', hfile', -⟩ := hstands' htidy hvalid hfs
  refine ⟨hzero, htotal, htidy, hvalid, hfs, place, place', d, d', hfile, hfile', ?_⟩
  rintro rfl
  exact halone 1 (Path.ofText "b.jar") (by decide) rfl hplace'

/-- A batch may end with 0 though an output is gone, which was removed by the program that a later source's unit is
handed to; and though a source had a unit that was never handed over, because the source was replaced by the output of
an earlier one before its turn. -/
theorem zero_despite_loss :
    (let b := commandBatch fun _ _ _ fs => (.ok {}, fs.erase [Utf8.encode "out", Utf8.encode "a-sources.jar"])
    let fs := holding [(["a.jar"], twoClasses), (["b.jar"], twoClasses)]
    let ended := b.run [Path.ofText "a.jar", Path.ofText "b.jar"] fs
    b.settings.validate fs = .ok () ∧
      (BatchReport.ofOutcomes ended.1 b.destination b.settings.backend.kind 0).exitStatus = 0 ∧
      (ended.1[0]?.bind fun o => o.result.toOption.map ArchiveReport.outputPath) =
        some (Path.ofText "out/a-sources.jar") ∧
      ended.2.fs.isFile (Path.ofText "out/a-sources.jar") = false) ∧
    (let b := simpleBatch "." "jar"
    let fs := holding [(["lib.jar"], .file (Zip.encode [⟨"a/README", []⟩])),
      (["lib-sources.jar"], .file (Zip.encode [⟨"Y.class", []⟩]))]
    let second := Path.ofText "lib-sources.jar"
    let ended := b.run [Path.ofText "lib.jar", second] fs
    b.settings.validate fs = .ok () ∧
      (BatchReport.ofOutcomes ended.1 b.destination b.settings.backend.kind 0).exitStatus = 0 ∧
      (openArchive fs second).toOption.map Node.unitCount = some 1 ∧
      (ended.1[1]?.bind fun o => o.result.toOption.map ArchiveReport.unitsTotal) = some 0) := by
  constructor
  · intro b fs ended
    have hrun : ((BatchReport.ofOutcomes ended.1 b.destination b.settings.backend.kind 0).exitStatus,
        ended.1[0]?.bind fun o => o.result.toOption.map ArchiveReport.outputPath,
        ended.2.fs.isFile (Path.ofText "out/a-sources.jar")) = (0, some (Path.ofText "out/a-sources.jar"), false) := by
      simp only [b, fs, ended]
      cbv
    obtain ⟨hstatus, hrun⟩ := Prod.mk.inj hrun
    exact ⟨commandBatch_valid (out_vacant ..), hstatus, Prod.mk.inj hrun⟩
  · intro b fs second ended
    have hrun : ((BatchReport.ofOutcomes ended.1 b.destination b.settings.backend.kind 0).exitStatus,
        ended.1[1]?.bind fun o => o.result.toOption.map ArchiveReport.unitsTotal) = (0, some 0) := by
      simp only [b, fs, second, ended]
      cbv
    obtain ⟨hstatus, htotal⟩ := Prod.mk.inj hrun
    refine ⟨simpleBatch_valid (by simp only [fs]; cbv), hstatus, ?_, htotal⟩
    simp only [fs, second]
    cbv

end Batch

end SourceJar
