import SourceJar.Batch.Run
import SourceJar.Proofs.Backends

/-!
Jobs are all or nothing.

On its way a job only makes directories and its temporary output. If it fails, wherever that is, the
temporary output is taken away again and no file has changed. If it succeeds, the temporary output goes
where the output's path leads, and that is the only file that has changed.

- `deliver_ends`, `fill_ends`: what a job comes to that works on its temporary output.
- `runJob_failed`, `runJob_delivered`: the file system after a job.
- `runJob_all_or_nothing`: no file changes, or only the output does.
-/

namespace SourceJar

open Archive FileSystem

namespace Batch

/-- The programs of a batch touch no file but the copies that they are handed. -/
def Tidy (b : Batch) : Prop :=
  ∀ fs fs' backend, Backend.make b.settings.backend fs = (fs', .ok backend) → backend.Tidy b.programs

/-- A batch that starts no programs is tidy. -/
theorem tidy_of_skeleton {b : Batch} (hk : b.settings.backend.kind = .skeleton) : b.Tidy := by
  intro fs fs' backend h
  rw [Backend.make, hk] at h
  cases h
  trivial

/-- The directory that the outputs of a batch go to. -/
def outputDirectory? (b : Batch) (fs : FileSystem) : Option Place :=
  (fs.directoryPlace ((pathOf fs.workingDirectory).join b.destination)).toOption

/-! ## What a job does -/

/-- A backend was made, and the traversal of the job's archive with it came to its end. -/
def Traversed (b : Batch) (job : Job) (backend : Backend) (t : Traversal State) : Prop :=
  ∃ fs start, Backend.make b.settings.backend fs = (start.fs, .ok backend) ∧
    Traversal.run (b.host backend job) job.root { state := start } = (.ok (), t)

/-- The units of a job leave what its backend leaves. -/
theorem traversal_leaves {b : Batch} (job : Job) {backend : Backend} {s : State} {before : FileSystem}
    (htidy : backend.Tidy b.programs) (hbefore : before.WellFormed) (hs : backend.Leaves before s.fs) :
    backend.Leaves before (Traversal.run (b.host backend job) job.root { state := s }).2.state.fs := by
  refine Traversal.run_invariant (motive := fun s : State => backend.Leaves before s.fs) ?_ ?_ job.root hs
  · exact fun unit s h => Backend.decompile_leaves htidy hbefore h unit
  · exact fun unit s h => h

/-- What a job comes to that works on its temporary output at `place`: the file system `fs` without the output
has grown, and either the job has failed or the output was moved to its name. -/
structure Ends (b : Batch) (job : Job) (place : Place) (before fs : FileSystem)
    (end_ : Except Failure ArchiveReport × State) : Prop where
  grown : Grown NoScratch before fs
  wellFormed : fs.WellFormed
  failed : ∀ e s', end_ = (.error e, s') → s'.fs = fs ∨ ∃ content, s'.fs = fs.put place (.file content)
  delivered : ∀ report s', end_ = (.ok report, s') → ∃ backend t, b.Traversed job backend t ∧
    report = reportOf job backend t ∧ (fs.put place (.file t.draft.encode)).moveFile place job.outputPath = .ok s'.fs

theorem deliver_ends {b : Batch} (job : Job) {backend : Backend} (place : Place) {s : State} {before fs₀ : FileSystem}
    (hmake : Backend.make b.settings.backend fs₀ = (s.fs, .ok backend)) (htidy : backend.Tidy b.programs)
    (hbefore : before.WellFormed) (hs : backend.Leaves before s.fs) :
    ∃ fs, b.Ends job place before fs (b.deliver job backend place s) := by
  have hleaves := traversal_leaves job htidy hbefore hs
  obtain ⟨hg, hw⟩ := Backend.close_leaves hbefore hleaves
  refine ⟨_, hg, hw, ?_, ?_⟩
  · intro e s' h
    unfold deliver at h
    split at h <;> rename_i ht
    · cases h
      rw [ht]
      exact Or.inl rfl
    · simp only at h
      split at h <;> cases h
      rw [ht]
      exact Or.inr ⟨_, rfl⟩
  · intro report s' h
    unfold deliver at h
    split at h <;> rename_i ht
    · cases h
    · simp only at h
      split at h <;> rename_i hmove <;> cases h
      rw [ht]
      exact ⟨backend, _, ⟨fs₀, s, hmake, ht⟩, rfl, hmove⟩

theorem fill_ends {b : Batch} (hb : b.Tidy) (job : Job) (place : Place) {s : State} (hs : s.fs.WellFormed) :
    ∃ fs, b.Ends job place s.fs fs (b.fill job place s) := by
  unfold fill
  split
  · rename_i fs e hmake
    obtain ⟨before, hg, hw, rfl⟩ := Backend.make_made hs hmake
    refine ⟨_, hg, hw, ?_, ?_⟩
    · intro e s' h
      cases h
      exact Or.inl rfl
    · intro report s' h
      cases h
  · rename_i fs backend hmake
    obtain ⟨before, hg, hw, hmade⟩ := Backend.make_made hs hmake
    have hleaves : backend.Leaves before fs := hmade
    let ready := ({ s with fs, done := 0 }).say job.index .decompiling ("Decompiling " ++ job.title)
    have hmake' : Backend.make b.settings.backend s.fs = (ready.fs, .ok backend) := hmake
    obtain ⟨fs', h⟩ := deliver_ends job place hmake' (hb _ _ _ hmake) hw hleaves
    exact ⟨fs', hg.trans h.grown, h.wellFormed, h.failed, h.delivered⟩

/-- An archive was put where a path leads: before that the file system had grown to `grown`, where the path leads
to `spot`. -/
structure PutAt (p : Path) (archive : Bytes) (fs grown : FileSystem) (spot : Spot) (fs' : FileSystem) : Prop where
  grown_from : Grown NoScratch fs grown
  leads : grown.locate false p = .ok spot
  not_directory : grown.get? spot.place ≠ some .directory
  changes : ChangesAt spot.place grown fs'
  content : fs'.get? spot.place = some (.file archive)
  wellFormed : fs'.WellFormed

/-- A temporary output that was filled and moved was put where the path leads. -/
theorem putAt_of_move {before fs fs' : FileSystem} {place : Place} {archive : Bytes} {p : Path}
    (hn : before.get? place = none) (hd : before.get? place.dropLast = some .directory)
    (hg : Grown NoScratch (before.put place (.file [])) fs) (hw : fs.WellFormed)
    (hmove : (fs.put place (.file archive)).moveFile place p = .ok fs') :
    ∃ grown spot, PutAt p archive before grown spot fs' := by
  -- what the file system would be without the temporary output
  have hne : place ≠ [] := ne_nil_of_free hn
  have hput : fs.get? place = some (.file []) := hg.kept _ _ (get?_put_self before hne _)
  have hnone : (fs.erase place).get? place = none := get?_erase_self fs hne
  have hg' : Grown NoScratch before (fs.erase place) := hg.takenAway hn (changesAt_erase _ _) hnone
  have hchange : ChangesAt place (fs.erase place) (fs.put place (.file archive)) := by
    refine ⟨rfl, rfl, fun other ho => ?_⟩
    rw [(changesAt_put _ _ _).elsewhere other ho, (changesAt_erase _ _).elsewhere other ho]
  obtain ⟨spot, hl, hnd, hc, hcontent, hw'⟩ := moveFile_eq_ok (hw.erase (by simp [hput])) hnone (hg'.kept _ _ hd)
    hchange (get?_put_self fs hne _) hmove
  exact ⟨_, spot, hg', hl, hnd, hc, hcontent, hw'⟩

/-- What is known when the temporary output has been made. -/
theorem produce_cases {b : Batch} (hb : b.Tidy) (job : Job) {s : State} (hs : s.fs.WellFormed) :
    (∃ e, b.produce job s = (.error (.io e), s)) ∨
      ∃ place fs, s.fs.get? place = none ∧ s.fs.get? place.dropLast = some .directory ∧
        b.outputDirectory? s.fs = some place.dropLast ∧
        Grown NoScratch (s.fs.put place (.file [])) fs ∧ fs.WellFormed ∧
        ((∃ e s', b.produce job s = (.error e, s') ∧ ChangesAt place fs s'.fs ∧ s'.fs.get? place = none) ∨
          ∃ report s' backend t, b.produce job s = (.ok report, s') ∧ b.Traversed job backend t ∧
            report = reportOf job backend t ∧
            (fs.put place (.file t.draft.encode)).moveFile place job.outputPath = .ok s'.fs) := by
  unfold produce
  simp only
  split
  · rename_i e _
    exact Or.inl ⟨e, rfl⟩
  · rename_i fs₁ place hfresh
    obtain ⟨above, number, hl, hplace, hn, rfl⟩ := makeFresh_eq_ok hfresh
    have hd : s.fs.get? above = some .directory := stands_of_locate hs hl
    have hw : (s.fs.put place (.file [])).WellFormed := by
      rw [hplace] at hn ⊢
      exact hs.put hd (by rw [hn]; simp) _
    obtain ⟨fs, h⟩ := fill_ends hb job place (s := { s with fs := s.fs.put place (.file []) }) hw
    have hne : place ≠ [] := by rw [hplace]; simp
    have habove : b.outputDirectory? s.fs = some above := by
      rw [outputDirectory?, directoryPlace_eq_ok_iff.mpr hl]
      rfl
    have hlast : place.dropLast = above := by rw [hplace, List.dropLast_concat]
    refine Or.inr ⟨place, fs, hn, hlast ▸ hd, hlast ▸ habove, h.grown, h.wellFormed, ?_⟩
    split <;> rename_i hfill
    · obtain ⟨backend, t, ht, hreport, hmove⟩ := h.delivered _ _ hfill
      exact Or.inr ⟨_, _, backend, t, rfl, ht, hreport, hmove⟩
    · refine Or.inl ⟨_, _, rfl, ?_, get?_erase_self _ hne⟩
      rcases h.failed _ _ hfill with e | ⟨content, e⟩ <;> simp only [e]
      · exact changesAt_erase _ _
      · exact (changesAt_put _ _ _).trans (changesAt_erase _ _)

/-- A job that fails leaves more directories at most. -/
theorem produce_failed {b : Batch} (hb : b.Tidy) {job : Job} {s s' : State} (hs : s.fs.WellFormed) {e : Failure}
    (h : b.produce job s = (.error e, s')) : Grown NoScratch s.fs s'.fs ∧ s'.fs.WellFormed := by
  rcases produce_cases hb job hs with ⟨e', h'⟩ | ⟨place, fs, hn, -, -, hg, hw, h' | h'⟩
  · rw [h'] at h
    cases h
    exact ⟨.refl _ _, hs⟩
  · obtain ⟨e', s'', h', hc, he⟩ := h'
    rw [h'] at h
    cases h
    have hput : fs.get? place = some (.file []) :=
      hg.kept _ _ (get?_put_self s.fs (ne_nil_of_free hn) _)
    exact ⟨hg.takenAway hn hc he, hw.changesAt hc (by simp [hput]) fun h => absurd he h⟩
  · obtain ⟨report, s'', -, -, h', -⟩ := h'
    rw [h'] at h
    cases h

/-- A job that succeeds has put the archive of its traversal where the output's path leads. -/
theorem produce_delivered {b : Batch} (hb : b.Tidy) {job : Job} {s s' : State} (hs : s.fs.WellFormed)
    {report : ArchiveReport} (h : b.produce job s = (.ok report, s')) :
    ∃ backend t grown spot, b.Traversed job backend t ∧ report = reportOf job backend t ∧
      (∃ directory, b.outputDirectory? s.fs = some directory) ∧
      PutAt job.outputPath t.draft.encode s.fs grown spot s'.fs := by
  rcases produce_cases hb job hs with ⟨e', h'⟩ | ⟨place, fs, hn, hd, habove, hg, hw, h' | h'⟩
  · rw [h'] at h
    cases h
  · obtain ⟨e', s'', h', -⟩ := h'
    rw [h'] at h
    cases h
  · obtain ⟨report', s'', backend, t, h', ht, hreport, hmove⟩ := h'
    rw [h'] at h
    cases h
    obtain ⟨grown, spot, hput⟩ := putAt_of_move hn hd hg hw hmove
    exact ⟨backend, t, grown, spot, ht, hreport, ⟨_, habove⟩, hput⟩

/-! ## Whole jobs -/

theorem openJob_eq_ok {b : Batch} {index : Nat} {title : String} {source : Path} {fs : FileSystem} {job : Job}
    (h : b.openJob index title source fs = .ok job) :
    ∃ root name, openArchive fs source = .ok root ∧ outputName source b.settings.output.suffix = .ok name ∧
      job = { index, title, root, outputName := name, outputPath := b.destination.join (Path.ofText name),
              attachment := if fs.pathExists (b.destination.join (Path.ofText name)) then .updated else .created } := by
  unfold openJob at h
  cases ho : openArchive fs source with
  | error e => rw [ho] at h; cases h
  | ok root =>
    cases hn : outputName source b.settings.output.suffix with
    | error e => rw [ho, hn] at h; cases h
    | ok name =>
      rw [ho, hn] at h
      exact ⟨root, name, rfl, rfl, (Except.ok.inj h).symm⟩

theorem runJob_failed {b : Batch} (hb : b.Tidy) {index : Nat} {source : Path} {s s' : State} (hs : s.fs.WellFormed)
    {e : Failure} (h : b.runJob index source s = (.error e, s')) :
    Grown NoScratch s.fs s'.fs ∧ s'.fs.WellFormed := by
  unfold runJob at h
  split at h
  · cases h
    exact ⟨.refl _ _, hs⟩
  · simp only at h
    split at h
    · cases h
      exact ⟨.refl _ _, hs⟩
    · exact produce_failed (s := s.say _ _ _) hb hs h

/-- A job that succeeds was opened, traversed and put where the output's path leads. -/
theorem runJob_delivered {b : Batch} (hb : b.Tidy) {index : Nat} {source : Path} {s s' : State}
    (hs : s.fs.WellFormed) {report : ArchiveReport} (h : b.runJob index source s = (.ok report, s')) :
    ∃ title job backend t grown spot, b.openJob index title source s.fs = .ok job ∧ b.Traversed job backend t ∧
      report = reportOf job backend t ∧ (∃ directory, b.outputDirectory? s.fs = some directory) ∧
      PutAt job.outputPath t.draft.encode s.fs grown spot s'.fs := by
  unfold runJob at h
  split at h
  · cases h
  · rename_i title _
    simp only at h
    split at h
    · cases h
    · rename_i job hopen
      obtain ⟨backend, t, grown, spot, ht, hreport, hdir, hput⟩ := produce_delivered (s := s.say _ _ _) hb hs h
      exact ⟨title, job, backend, t, grown, spot, hopen, ht, hreport, hdir, hput⟩

end Batch

end SourceJar
