import SourceJar.Proofs.Handing
import SourceJar.Proofs.Outputs
import SourceJar.Proofs.WrittenEntries

/-!
What the backend of a job answers, and what the job makes of it.

The answers to the units that a traversal hands over are read off its record (`answered`). A traversal that comes to its
end has handed over every unit, and its draft and the names that failed follow from the tree and the answers (`run_ends`).
A job that succeeds has come to the end of its traversal, and has put the archive of the draft where its source's output
belongs (`resultOf_ok`).
-/

namespace SourceJar

open Archive Archive.EntryName FileSystem

variable {σ α : Type}

/-! ## Traversals that come to their end -/

theorem Host.undisturbed_recording {h : Host σ α} {units : List (Node α)} {s : σ} (hs : h.Undisturbed units s)
    (record : List (Node α × σ)) : h.recording.Undisturbed units (s, record) := by
  induction units generalizing s record with
  | nil => trivial
  | cons unit rest ih => exact ⟨hs.1, ih hs.2 _⟩

/-- What the backend answers to units can be read off the record of handing them over. -/
theorem Host.answers_recording (h : Host σ α) (units : List (Node α)) (s : σ) (record : List (Node α × σ)) :
    (h.recording.afterAll units (s, record)).2.map (fun e => (e.1, (h.decompile e.1 e.2).1)) =
      record.map (fun e => (e.1, (h.decompile e.1 e.2).1)) ++ h.answers units s := by
  induction units generalizing s record with
  | nil => exact (List.append_nil _).symm
  | cons unit rest ih =>
    rw [Host.afterAll, Host.answers]
    refine (ih (h.after unit s) (record ++ [(unit, s)])).trans ?_
    rw [List.map_append, List.append_assoc]
    rfl

namespace Traversal

/-- What the backend answers to the units that a traversal hands to it. -/
def answered (h : Host σ α) (root : Node α) (s : σ) : List (Node α × Except UnitFailure String) :=
  (handed h root s).map fun e => (e.1, (h.decompile e.1 e.2).1)

variable {h : Host σ α}

/-- A traversal that comes to its end has handed over every unit, has noted the refused ones, and has written the first
occurrences of what its steps ask for. -/
theorem run_ends {root : Node α} {s : σ} {after : Traversal σ} (e : run h root { state := s } = (.ok (), after)) :
    (answered h root s).map Prod.fst = root.units ∧
      after.failed = (answered h root s).foldl noteAnswer [] ∧
      after.draft.entries = firstNew [] (written (steps root) (answered h root s)) := by
  by_cases hr : root.children = []
  · rw [run, hr] at e
    cases e
  rw [run_eq_performAll h hr] at e
  have hquiet := (performAll_ok e).1
  obtain ⟨d, e', ht⟩ := performAll_takes h (steps root) (t := { state := s }) Draft.named_fresh hquiet
  obtain ⟨_, er, -⟩ := performAll_takes h.recording (steps root) (t := { state := (s, []) }) Draft.named_fresh
    (Host.undisturbed_recording hquiet [])
  have hanswered : answered h root s = h.answers root.units s := by
    rw [answered, handed, run_eq_performAll h.recording hr, er, units_steps]
    exact h.answers_recording root.units s []
  rw [e] at e'
  cases e'
  rw [hanswered, ← units_steps]
  exact ⟨h.map_fst_answers _ s, rfl, ht.entries⟩

end Traversal

namespace Batch

/-! ## The traversal of a job -/

/-- The traversal that is come to for a source: its job, its backend and the state that it starts in. -/
def traversalFor? (b : Batch) (index : Nat) (source : Path) (conflict : Option Path) (s : State) :
    Option (Job × Backend × State) :=
  match conflict, b.titleFor source s with
  | none, .ok title =>
    let s := s.say index .opening ("Opening " ++ title)
    match b.openJob index title source s.fs with
    | .ok job =>
      let directory := (pathOf s.fs.workingDirectory).join b.destination
      match s.fs.makeFresh directory temporaryStart temporaryEnd (.file []) with
      | .ok (fs, _) =>
        match Backend.make b.settings.backend fs with
        | (fs, .ok backend) =>
          some (job, backend, ({ s with fs, done := 0 }).say job.index .decompiling ("Decompiling " ++ job.title))
        | (_, .error _) => none
      | .error _ => none
    | .error _ => none
  | _, _ => none

section Ends

variable {b : Batch} {index : Nat} {source : Path} {conflict : Option Path} {s s' : State} {report : ArchiveReport}

/-- The temporary output of a job that comes to its end is put where the output's path leads. -/
theorem putAt_of_traversal (hb : b.Tidy) {before fs grown fs' : FileSystem} (hbefore : before.WellFormed)
    {directory : Path} {place : Place}
    (hfresh : before.makeFresh directory temporaryStart temporaryEnd (.file []) = .ok (fs, place)) {backend : Backend}
    {start : State} (hmake : Backend.make b.settings.backend fs = (start.fs, .ok backend)) {job : Job}
    {t : Traversal State} (hrun : Traversal.run (b.host backend job) job.root { state := start } = (.ok (), t))
    (hgrown : grown = backend.close t.state.fs)
    (hmove : (grown.put place (.file t.draft.encode)).moveFile place job.outputPath = .ok fs') :
    ∃ above grown spot, before.directoryPlace directory = .ok above ∧
      PutAt job.outputPath t.draft.encode before grown spot fs' := by
  obtain ⟨above, number, hl, hplace, hn, rfl⟩ := makeFresh_eq_ok hfresh
  have hd : before.get? above = some .directory := stands_of_locate hbefore hl
  have hlast : place.dropLast = above := by rw [hplace, List.dropLast_concat]
  have hw : (before.put place (.file [])).WellFormed := by
    rw [hplace] at hn ⊢
    exact hbefore.put hd (by rw [hn]; simp) _
  obtain ⟨made, hg, hmade, hleaves⟩ := Backend.make_made hw hmake
  have hleaves' := traversal_leaves job (hb _ _ _ hmake) hmade hleaves
  rw [hrun] at hleaves'
  obtain ⟨hg', hw'⟩ := Backend.close_leaves hmade hleaves'
  subst hgrown
  obtain ⟨grown, spot, hput⟩ := putAt_of_move hn (hlast ▸ hd) (hg.trans hg') hw' hmove
  exact ⟨above, grown, spot, directoryPlace_eq_ok_iff.mpr hl, hput⟩

/-- A job that succeeds has come to the end of its traversal and has moved the archive of the draft to the output's
path. If the programs of the batch touch no file but their copies, the archive was put at the place of the output. -/
theorem resultOf_ok (h : b.resultOf index source conflict s = (.ok report, s')) :
    ∃ title job backend start t, b.openJob index title source s.fs = .ok job ∧
      b.traversalFor? index source conflict s = some (job, backend, start) ∧
      Traversal.run (b.host backend job) job.root { state := start } = (.ok (), t) ∧
      report = reportOf job backend t ∧
      (∃ (fs : FileSystem) (place : Place),
        (fs.put place (.file t.draft.encode)).moveFile place job.outputPath = .ok s'.fs) ∧
      (b.Tidy → IsSuffix b.settings.output.suffix → s.fs.WellFormed →
        ∃ grown spot, b.outputPlace? s.fs source = some spot.place ∧
          PutAt job.outputPath t.draft.encode s.fs grown spot s'.fs) := by
  unfold resultOf at h
  split at h
  · cases h
  unfold runJob at h
  split at h
  · cases h
  rename_i title htitle
  simp only at h
  split at h
  · cases h
  rename_i job hopen
  unfold produce at h
  simp only at h
  split at h
  · cases h
  rename_i fs place hfresh
  split at h <;> rename_i hfill <;> cases h
  unfold fill at hfill
  split at hfill
  · cases hfill
  rename_i fs' backend hmake
  unfold deliver at hfill
  split at hfill <;> rename_i t hrun
  · cases hfill
  simp only at hfill
  split at hfill <;> rename_i hmove <;> cases hfill
  refine ⟨title, job, backend, _, t, hopen, ?_, hrun, rfl, ⟨_, place, hmove⟩, fun hb hsuffix hs => ?_⟩
  · simp only [traversalFor?, htitle, hopen, hfresh, hmake]
  · obtain ⟨above, grown, spot, habove, hput⟩ := putAt_of_traversal hb hs hfresh hmake hrun rfl hmove
    obtain ⟨hclaim, hpath⟩ := openJob_claims (titleFor_eq_ok htitle) hopen
    have hd : b.outputDirectory? s.fs = some above := congrArg Except.toOption habove
    refine ⟨grown, spot, ?_, hput⟩
    rw [outputPlace?, hclaim, hd, put_place hs (claim?_plain hsuffix hclaim) hd (hpath ▸ hput)]

end Ends

end Batch

end SourceJar
