import SourceJar.Proofs.Drafts
import SourceJar.Proofs.Steps

/-!
What a traversal writes.

A backend is a state machine that is handed units one after another; its answers depend on nothing but
the units and the state it started in. The entries that a traversal asks for are read off the steps of
the tree and these answers: a directory entry for each directory that is not empty, a source file for
each unit that was answered with a text. A run that is not asked to stop writes the first occurrences
of them, and collects the names of the units that were refused.

- `perform_directory`, `perform_unit`: what one step does.
- `performAll_takes`: what a row of steps does.
- `performAll_ok`: what a row of steps has done if it succeeds.
- `run_writes_first_occurrences`: what a run does, whatever the tree, the backend and the draft.
-/

namespace SourceJar

open Archive Archive.EntryName

variable {σ α : Type}

/-! ## The backend on its own -/

/-- The state after a unit was handed to the backend and reported. -/
def Host.after (h : Host σ α) (unit : Node α) (s : σ) : σ := h.report unit (h.decompile unit s).2

/-- The state after units were handed to the backend and reported one after another. -/
def Host.afterAll (h : Host σ α) : List (Node α) → σ → σ
  | [], s => s
  | unit :: rest, s => h.afterAll rest (h.after unit s)

/-- What the backend answers to units that are handed to it one after another. -/
def Host.answers (h : Host σ α) : List (Node α) → σ → List (Node α × Except UnitFailure String)
  | [], _ => []
  | unit :: rest, s => (unit, (h.decompile unit s).1) :: h.answers rest (h.after unit s)

/-- No request to stop stands when one of the units is come to. -/
def Host.Undisturbed (h : Host σ α) : List (Node α) → σ → Prop
  | [], _ => True
  | unit :: rest, s => h.stops s = false ∧ h.Undisturbed rest (h.after unit s)

theorem Host.undisturbed_of_never (h : Host σ α) (hs : ∀ s, h.stops s = false) (units : List (Node α))
    (s : σ) : h.Undisturbed units s := by
  induction units generalizing s with
  | nil => trivial
  | cons unit rest ih => exact ⟨hs s, ih _⟩

theorem Host.map_fst_answers (h : Host σ α) (units : List (Node α)) (s : σ) :
    (h.answers units s).map Prod.fst = units := by
  induction units generalizing s with
  | nil => rfl
  | cons unit rest ih => rw [Host.answers, List.map_cons, ih]

namespace Traversal

/-- The entry that an answered unit in the directory at `place` gives. -/
def entryOf (place : List String) (node : Node α) : Except UnitFailure String → List DraftEntry
  | .ok text => [⟨directoryPath place ++ node.baseName ++ "." ++ sourceExtension, false, text⟩]
  | .error _ => []

/-- The entries that steps ask for, given the answers to the units among them in order. -/
def written : List (Step α) → List (Node α × Except UnitFailure String) → List DraftEntry
  | [], _ => []
  | .directory place name :: rest, answers =>
    ⟨directoryPath (place ++ [name]), true, ""⟩ :: written rest answers
  | .unit place node :: rest, (_, answer) :: answers => entryOf place node answer ++ written rest answers
  | .unit .. :: _, [] => []

/-- What a row of steps asks for is what its parts ask for in order. -/
theorem written_append (h : Host σ α) (front back : List (Step α)) (s : σ) :
    written (front ++ back) (h.answers ((front ++ back).filterMap Step.unit?) s) =
      written front (h.answers (front.filterMap Step.unit?) s) ++
        written back (h.answers (back.filterMap Step.unit?) (h.afterAll (front.filterMap Step.unit?) s)) := by
  induction front generalizing s with
  | nil => rfl
  | cons step rest ih =>
    cases step with
    | directory place name => exact congrArg (_ :: ·) (ih s)
    | unit place node =>
      simp only [List.cons_append, List.filterMap_cons, Step.unit?, Host.answers, Host.afterAll, written, ih,
        List.append_assoc]

/-- Names with that of a unit among them if it was refused. -/
def noteAnswer (failed : List String) : Node α × Except UnitFailure String → List String
  | (_, .ok _) => failed
  | (unit, .error _) => insertName unit.name failed

/-! ## One step -/

theorem perform_directory (h : Host σ α) (place : List String) (name : String) {t : Traversal σ}
    (hd : t.draft.Named) :
    ∃ d, perform h (.directory place name) t = (.ok (), { t with draft := d }) ∧
      t.draft.Takes [⟨directoryPath (place ++ [name]), true, ""⟩] d := by
  obtain ⟨d, new, e, ht⟩ := Draft.addDirectory_takes hd (isDirectory_directoryPath place name)
  exact ⟨d, by simp only [perform, addDirectory, e], ht⟩

theorem perform_unit (h : Host σ α) (place : List String) (node : Node α) {t : Traversal σ}
    (hd : t.draft.Named) (hs : h.stops t.state = false) :
    ∃ d, perform h (.unit place node) t =
        (.ok (), ⟨h.after node t.state, d, noteAnswer t.failed (node, (h.decompile node t.state).1)⟩) ∧
      t.draft.Takes (entryOf place node (h.decompile node t.state).1) d := by
  simp only [perform, visitUnit, hs, Bool.false_eq_true, if_false, Host.after]
  rcases h.decompile node t.state with ⟨_ | text, after⟩
  · exact ⟨t.draft, rfl, Draft.Takes.refl hd⟩
  · obtain ⟨d, new, e, ht⟩ :=
      Draft.addFile_takes hd (directoryPath place ++ node.baseName ++ "." ++ sourceExtension) text
    exact ⟨d, by simp only [addFile, e, noteAnswer], ht⟩

/-- A step that succeeds was not asked to stop, and has noted its unit if this was refused. -/
theorem perform_ok {h : Host σ α} {step : Step α} {t after : Traversal σ} (e : perform h step t = (.ok (), after)) :
    h.Undisturbed step.unit?.toList t.state ∧ after.state = h.afterAll step.unit?.toList t.state ∧
      after.failed = (h.answers step.unit?.toList t.state).foldl noteAnswer t.failed := by
  cases step with
  | directory place name =>
    rw [perform, addDirectory] at e
    split at e <;> cases e
    exact ⟨trivial, rfl, rfl⟩
  | unit place node =>
    rw [perform, visitUnit] at e
    split at e
    · cases e
    · rename_i hstop
      refine ⟨⟨by simpa using hstop, trivial⟩, ?_⟩
      simp only [Step.unit?, Option.toList, Host.afterAll, Host.after, Host.answers, List.foldl_cons, List.foldl_nil]
      split at e <;> rename_i hanswer <;> rw [hanswer]
      · rw [addFile] at e
        split at e <;> rename_i hadd <;> split at hadd <;> cases hadd <;> cases e
        exact ⟨rfl, rfl⟩
      · cases e
        exact ⟨rfl, rfl⟩

/-! ## A row of steps -/

/-- A row of steps that nothing stops succeeds, whatever the backend answers. -/
theorem performAll_takes (h : Host σ α) (row : List (Step α)) {t : Traversal σ} (hd : t.draft.Named)
    (hs : h.Undisturbed (row.filterMap Step.unit?) t.state) :
    ∃ d, performAll h row t =
        (.ok (), ⟨h.afterAll (row.filterMap Step.unit?) t.state, d,
          (h.answers (row.filterMap Step.unit?) t.state).foldl noteAnswer t.failed⟩) ∧
      t.draft.Takes (written row (h.answers (row.filterMap Step.unit?) t.state)) d := by
  induction row generalizing t with
  | nil => exact ⟨t.draft, rfl, Draft.Takes.refl hd⟩
  | cons step rest ih =>
    cases step with
    | directory place name =>
      obtain ⟨d, e, ht⟩ := perform_directory h place name hd
      obtain ⟨d', e', ht'⟩ := ih (t := { t with draft := d }) ht.named hs
      exact ⟨d', (by simp only [performAll, e]; exact e'), ht.trans ht'⟩
    | unit place node =>
      obtain ⟨d, e, ht⟩ := perform_unit h place node hd hs.1
      obtain ⟨d', e', ht'⟩ := ih (t := ⟨h.after node t.state, d, _⟩) ht.named hs.2
      exact ⟨d', (by simp only [performAll, e]; exact e'), ht.trans ht'⟩

/-- Steps that succeed were not asked to stop, have handed over every unit among them and have noted every refusal. -/
theorem performAll_ok {h : Host σ α} {row : List (Step α)} {t after : Traversal σ}
    (e : performAll h row t = (.ok (), after)) :
    h.Undisturbed (row.filterMap Step.unit?) t.state ∧
      after.failed = (h.answers (row.filterMap Step.unit?) t.state).foldl noteAnswer t.failed := by
  induction row generalizing t with
  | nil => cases e; exact ⟨trivial, rfl⟩
  | cons step rest ih =>
    rw [performAll] at e
    split at e <;> rename_i t' hstep
    · obtain ⟨hquiet, hstate, hfailed⟩ := perform_ok hstep
      obtain ⟨hrest, hlater⟩ := ih e
      rw [hstate] at hrest hlater
      rw [hlater, hfailed]
      cases step with
      | directory place name => exact ⟨hrest, rfl⟩
      | unit place node => exact ⟨⟨hquiet.1, hrest⟩, rfl⟩
    · cases e

/-! ## The names that failed -/

theorem mem_insertName {name other : String} {names : List String} :
    other ∈ insertName name names ↔ other = name ∨ other ∈ names := by
  induction names with
  | nil => simp [insertName]
  | cons first rest ih =>
    simp only [insertName]
    split
    · simp
    · split
      · rename_i e; subst e; simp
      · simp only [List.mem_cons, ih]; exact or_left_comm

theorem pairwise_insertName {name : String} {names : List String} (h : names.Pairwise (· < ·)) :
    (insertName name names).Pairwise (· < ·) := by
  induction names with
  | nil => simp [insertName]
  | cons first rest ih =>
    obtain ⟨hf, hr⟩ := List.pairwise_cons.mp h
    simp only [insertName]
    split
    · rename_i hlt
      refine List.pairwise_cons.mpr ⟨fun other ho => ?_, h⟩
      rcases List.mem_cons.mp ho with rfl | ho
      · exact hlt
      · exact String.lt_trans hlt (hf other ho)
    · rename_i hge
      split
      · exact h
      · rename_i hne
        refine List.pairwise_cons.mpr ⟨fun other ho => ?_, ih hr⟩
        rcases mem_insertName.mp ho with rfl | ho
        · -- neither below nor equal, so above
          exact String.not_le.mp fun hle => hne (String.le_antisymm hle (String.not_lt.mp hge))
        · exact hf other ho

theorem mem_foldl_noteAnswer {name : String} {answers : List (Node α × Except UnitFailure String)}
    {failed : List String} :
    name ∈ answers.foldl noteAnswer failed ↔
      name ∈ failed ∨ ∃ unit failure, (unit, .error failure) ∈ answers ∧ unit.name = name := by
  induction answers generalizing failed with
  | nil => simp
  | cons first rest ih =>
    rw [List.foldl_cons, ih]
    rcases first with ⟨unit, _ | _⟩
    · simp only [noteAnswer, mem_insertName, List.mem_cons]
      grind
    · simp only [noteAnswer, List.mem_cons]
      grind

theorem pairwise_foldl_noteAnswer {answers : List (Node α × Except UnitFailure String)}
    {failed : List String} (h : failed.Pairwise (· < ·)) :
    (answers.foldl noteAnswer failed).Pairwise (· < ·) := by
  induction answers generalizing failed with
  | nil => exact h
  | cons first rest ih =>
    rcases first with ⟨unit, _ | _⟩
    · exact ih (pairwise_insertName h)
    · exact ih h

/-! ## A whole run -/

/-- Whatever the tree, the backend and the draft, a run that is not asked to stop succeeds. It extends
the draft by the first occurrences of what the steps ask for, and the names that failed are those of
the units that were refused. -/
theorem run_writes_first_occurrences (h : Host σ α) (hs : ∀ s, h.stops s = false) {root : Node α}
    (hr : root.children ≠ []) {d : Draft} (hd : d.Reached) (s : σ) :
    ∃ t, run h root { state := s, draft := d } = (.ok (), t) ∧
      t.draft.entries = d.entries ++ firstNew d.seen (written (steps root) (h.answers root.units s)) ∧
      (∀ name, name ∈ t.failed ↔
        ∃ unit failure, (unit, .error failure) ∈ h.answers root.units s ∧ unit.name = name) ∧
      t.failed.Pairwise (· < ·) := by
  obtain ⟨d', e, ht⟩ := performAll_takes h (steps root) (t := { state := s, draft := d }) hd.named
    (h.undisturbed_of_never hs _ s)
  rw [units_steps] at e ht
  refine ⟨_, (run_eq_performAll h hr _).trans e, ht.entries, fun name => ?_, ?_⟩
  · simp [mem_foldl_noteAnswer]
  · exact pairwise_foldl_noteAnswer List.Pairwise.nil

/-- Two directories of one name, a class that is there twice, a class that is refused, and a draft that
holds one of the paths before the run. -/
theorem shared_names_written_once :
    let h : Host Nat Unit :=
      { stops := fun _ => false
        decompile := fun unit calls =>
          (if unit.name = "Bad.class" then .error (.refused unit.name "") else .ok unit.baseName, calls + 1)
        report := fun _ calls => calls }
    let class_ (name : String) : Node Unit := .file name name ()
    let root : Node Unit := .directory "lib.jar" "" [
      .directory "com" "" [class_ "Foo.class", class_ "Bad.class"], .directory "empty" "" [],
      .directory "com" "" [class_ "Foo.class", class_ "Foo$1.class", class_ "Bar.class"], class_ "A.class"]
    let d := (Draft.addFile {} "com/Bar.java" "before").1
    ∃ t, run h root { state := 0, draft := d } = (.ok (), t) ∧
      t.draft.entries = [⟨"com/Bar.java", false, "before"⟩, ⟨"com/", true, ""⟩,
        ⟨"com/Foo.java", false, "Foo"⟩, ⟨"A.java", false, "A"⟩] ∧ t.failed = ["Bad.class"] := by
  intro h class_ root d
  have hr : root.children ≠ [] := List.cons_ne_nil _ _
  have hd : d.Reached := .file _ _ (by decide) .fresh
  obtain ⟨t, e, he, -, -⟩ := run_writes_first_occurrences h (fun _ => rfl) hr hd 0
  refine ⟨t, e, he.trans ?_, ?_⟩
  · decide +kernel
  · have : (run h root { state := 0, draft := d }).2.failed = ["Bad.class"] := by decide +kernel
    rw [e] at this
    exact this

end Traversal

end SourceJar
