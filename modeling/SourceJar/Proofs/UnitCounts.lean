import Mathlib
import SourceJar.Batch.Report
import SourceJar.Proofs.WrittenEntries
import SourceJar.Batch.Run

/-!
What the counts in a report count.

A traversal keeps the units that were refused as an ordered list of their names, without repeats, and a
report takes the length of that list for the number of units that were refused. The two agree exactly if no
two refused units share a name; classes of one name in different directories are counted once.

- `run_ok`: a traversal that succeeds has handed over every unit and noted every refusal.
- `runJob_counts`: the counts of a report, and when they are the numbers of units.
-/

namespace SourceJar

open Archive

/-! ## Traversals that succeed -/

namespace Traversal

variable {σ α : Type} {h : Host σ α}

/-- A traversal that succeeds has handed over every unit and noted every refusal. -/
theorem run_ok {root : Node α} {s : σ} {after : Traversal σ} (e : run h root { state := s } = (.ok (), after)) :
    after.failed = (h.answers root.units s).foldl noteAnswer [] := by
  by_cases hr : root.children = []
  · rw [run, hr] at e
    cases e
  · rw [run_eq_performAll h hr] at e
    rw [(performAll_ok e).2, units_steps]

/-! ## Names of refused units -/

/-- The names of the units that were refused, one for each unit. -/
def refusedNames (answers : List (Node α × Except UnitFailure String)) : List String :=
  answers.filterMap fun (unit, answer) => if answer.isOk then none else some unit.name

/-- How many units were turned into source text. -/
def textCount (answers : List (Node α × Except UnitFailure String)) : Nat :=
  answers.countP fun (_, answer) => answer.isOk

theorem textCount_add_refused (answers : List (Node α × Except UnitFailure String)) :
    textCount answers + (refusedNames answers).length = answers.length := by
  induction answers with
  | nil => rfl
  | cons first rest ih =>
    rcases first with ⟨unit, e | text⟩
    · simp only [textCount, refusedNames, List.countP_cons, List.filterMap_cons, Except.isOk, Except.toBool] at ih ⊢
      simp only [Bool.false_eq_true, if_false, List.length_cons]
      omega
    · simp only [textCount, refusedNames, List.countP_cons, List.filterMap_cons, Except.isOk, Except.toBool] at ih ⊢
      simp only [if_true, List.length_cons]
      omega

theorem mem_refusedNames {answers : List (Node α × Except UnitFailure String)} {name : String} :
    name ∈ refusedNames answers ↔ ∃ unit failure, (unit, .error failure) ∈ answers ∧ unit.name = name := by
  rw [refusedNames, List.mem_filterMap]
  constructor
  · rintro ⟨⟨unit, e | text⟩, hm, hn⟩
    · exact ⟨unit, e, hm, by simpa [Except.isOk, Except.toBool] using hn⟩
    · simp [Except.isOk, Except.toBool] at hn
  · rintro ⟨unit, e, hm, hn⟩
    exact ⟨(unit, .error e), hm, by simpa [Except.isOk, Except.toBool] using hn⟩

/-- The names that are noted are the names of the refused units without repeats. -/
theorem length_noted (answers : List (Node α × Except UnitFailure String)) :
    (answers.foldl noteAnswer []).length = (refusedNames answers).dedup.length := by
  have hnodup : (answers.foldl noteAnswer []).Nodup :=
    (pairwise_foldl_noteAnswer List.Pairwise.nil).imp fun {a b} (hlt : a < b) (e : a = b) =>
      String.lt_irrefl b (e ▸ hlt)
  refine ((List.perm_ext_iff_of_nodup hnodup (List.nodup_dedup _)).mpr fun name => ?_).length_eq
  rw [List.mem_dedup, mem_refusedNames, mem_foldl_noteAnswer]
  simp

/-- Nothing is lost among names without repeats exactly if there are no repeats. -/
theorem length_dedup_eq_iff {names : List String} : names.dedup.length = names.length ↔ names.Nodup := by
  rw [← List.dedup_eq_self]
  exact ⟨(List.dedup_sublist names).eq_of_length, congrArg List.length⟩

end Traversal

/-! ## Reports -/

theorem Host.length_answers {σ α : Type} (h : Host σ α) (units : List (Node α)) (s : σ) :
    (h.answers units s).length = units.length := by
  rw [← List.length_map, h.map_fst_answers]

namespace Batch

open Traversal

/-- A job that succeeds was opened and traversed, and its report is on that traversal. -/
theorem runJob_reported {b : Batch} {index : Nat} {source : Path} {s s' : State} {report : ArchiveReport}
    (h : b.runJob index source s = (.ok report, s')) :
    ∃ title job backend fs start t, b.openJob index title source s.fs = .ok job ∧
      Backend.make b.settings.backend fs = (start.fs, .ok backend) ∧
      Traversal.run (b.host backend job) job.root { state := start } = (.ok (), t) ∧
      report = reportOf job backend t := by
  unfold runJob at h
  split at h
  · cases h
  · rename_i title _
    simp only at h
    split at h
    · cases h
    · rename_i job hopen
      unfold produce at h
      simp only at h
      split at h
      · cases h
      · rename_i fs place _
        split at h <;> rename_i hfill <;> cases h
        unfold fill at hfill
        split at hfill
        · cases hfill
        · rename_i backend hmake
          unfold deliver at hfill
          split at hfill <;> rename_i t hrun
          · cases hfill
          · simp only at hfill
            split at hfill <;> cases hfill
            exact ⟨title, job, backend, fs, _, t, hopen, hmake, hrun, rfl⟩

/-- The counts in the report of a job that succeeds. All units of the archive were handed to the backend and
counted, but the refused ones only once for each name: the numbers of units that were turned into source text
and of units that failed are right exactly if no two refused units share a name. -/
theorem runJob_counts {b : Batch} {index : Nat} {source : Path} {s s' : State} {report : ArchiveReport}
    (h : b.runJob index source s = (.ok report, s')) :
    ∃ title job backend start, b.openJob index title source s.fs = .ok job ∧
      (∃ fs, Backend.make b.settings.backend fs = (start.fs, .ok backend)) ∧
      let answers := (b.host backend job).answers job.root.units start
      report.unitsTotal = answers.length ∧
      report.unitsDecompiled = answers.length - (refusedNames answers).dedup.length ∧
      (report.unitsDecompiled = textCount answers ↔ (refusedNames answers).Nodup) ∧
      ∀ sums : BatchSummary,
        let counted := sums.count (.ofOutcome ⟨source, .ok report⟩)
        counted.unitsTotal = sums.unitsTotal + answers.length ∧
        counted.unitsFailed = sums.unitsFailed + (refusedNames answers).dedup.length ∧
        (counted.unitsFailed = sums.unitsFailed + (refusedNames answers).length ↔ (refusedNames answers).Nodup) := by
  obtain ⟨title, job, backend, fs, start, t, hopen, hmake, hrun, rfl⟩ := runJob_reported h
  refine ⟨title, job, backend, start, hopen, ⟨fs, hmake⟩, ?_⟩
  intro answers
  have htotal : (reportOf job backend t).unitsTotal = answers.length := (Host.length_answers _ _ _).symm
  have hfailed : (reportOf job backend t).failed.length = (refusedNames answers).dedup.length :=
    (congrArg List.length (run_ok hrun)).trans (length_noted answers)
  have hsum := textCount_add_refused answers
  have hle := (List.dedup_sublist (refusedNames answers)).length_le
  refine ⟨htotal, ?_, ?_, fun sums => ⟨?_, ?_, ?_⟩⟩
  · rw [ArchiveReport.unitsDecompiled, htotal, hfailed]
  · rw [ArchiveReport.unitsDecompiled, htotal, hfailed, ← length_dedup_eq_iff]
    omega
  · exact congrArg (sums.unitsTotal + ·) htotal
  · exact congrArg (sums.unitsFailed + ·) hfailed
  · rw [← length_dedup_eq_iff, ← hfailed]
    exact Nat.add_left_cancel_iff

/-- One class, marked as encrypted, so that it cannot be read. -/
theorem unreadable_class_counted :
    let b : Batch :=
      { settings := { output := { destination := Path.ofText "out" }, jobs := 1 }, destination := Path.ofText "out"
        programs := fun _ _ _ fs => (.error (.os .noEntry), fs) }
    let fs : FileSystem :=
      { nodes := [([Utf8.encode "out"], .directory),
          ([Utf8.encode "lib.jar"], .file ((Zip.encode [⟨"X.class", []⟩]).set 45 1))]
        workingDirectory := [], temporaryDirectory := [] }
    ∃ report s', b.runJob 0 (Path.ofText "lib.jar") { fs } = (.ok report, s') ∧ report.unitsTotal = 1 ∧
      report.unitsDecompiled = 0 ∧ ∃ job backend start,
        let answers := (b.host backend job).answers job.root.units start
        textCount answers = 0 ∧ (refusedNames answers).length = 1 := by
  intro b fs
  have hrun : (b.runJob 0 (Path.ofText "lib.jar") { fs }).1.toOption.map
      (fun r => (r.unitsTotal, r.unitsDecompiled)) = some (1, 0) := by
    simp only [b, fs]
    cbv
  cases hj : b.runJob 0 (Path.ofText "lib.jar") { fs } with
  | mk result s' =>
    rw [hj] at hrun
    cases result with
    | error e => cases hrun
    | ok report =>
      obtain ⟨htotal, hdone⟩ := Prod.mk.inj (Option.some.inj hrun)
      obtain ⟨-, job, backend, start, -, -, hunits, hcount, -⟩ := runJob_counts hj
      refine ⟨report, s', rfl, htotal, hdone, job, backend, start, ?_⟩
      have hle := (List.dedup_sublist (refusedNames ((b.host backend job).answers job.root.units start))).length_le
      have hsum := textCount_add_refused ((b.host backend job).answers job.root.units start)
      intro answers
      simp only [answers]
      omega

/-- The report on a job with two refused classes of one name says that one class was turned into source text and
one failed, where none was and two did. -/
theorem counts_differ_for_one_name :
    let class_ (directory : String) : Entry := .file "X.class" ("lib.jar!/" ++ directory ++ "/X.class") (.ok [])
    let job : Job :=
      { index := 0, title := "lib.jar", outputName := "lib-sources.jar", outputPath := Path.ofText "lib-sources.jar"
        attachment := .created
        root := .directory "lib.jar" "lib.jar!/"
          [.directory "a" "lib.jar!/a/" [class_ "a"], .directory "b" "lib.jar!/b/" [class_ "b"]] }
    let b : Batch :=
      { settings := { output := { destination := Path.ofText "." }, jobs := 1 }, destination := Path.ofText "."
        programs := fun _ _ _ fs => (.error (.os .noEntry), fs) }
    let backend : Backend := .skeleton {}
    let start : State := { fs := { nodes := [], workingDirectory := [], temporaryDirectory := [] } }
    let ended := Traversal.run (b.host backend job) job.root { state := start }
    let answers := (b.host backend job).answers job.root.units start
    let report := reportOf job backend ended.2
    ended.1.isOk = true ∧ textCount answers = 0 ∧ report.unitsDecompiled = 1 ∧
      (refusedNames answers).length = 2 ∧
      (BatchSummary.count {} (.ofOutcome ⟨Path.ofText "lib.jar", .ok report⟩)).unitsFailed = 1 := by
  decide +kernel

end Batch

end SourceJar
