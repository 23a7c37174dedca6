import SourceJar.Proofs.WrittenEntries
import SourceJar.StopFlag

/-!
Traversals that are asked to stop.

A traversal is watched while a flag is attached to it, or none is: the watch keeps the units that were
handed to the backend and those that were reported, and raises the flag when the given number of units
was reported. The traversal looks at the flag before each unit, so it is cancelled exactly if a unit is
left when the flag is raised. What it did until then is what the undisturbed run does first.

- `afterAll_watched`: the watch after any units.
- `performAll_cancelled`: steps up to a raised flag.
- `run_stops_after_limit`: the units, the answer and the entries of every such run.
-/

namespace SourceJar

open Archive

variable {σ α : Type}

/-- What is known of a traversal under watch. -/
structure Watch (σ α : Type) where
  backend : σ
  /-- The flag, if one is attached. -/
  flag : Option StopFlag
  handed : List (Node α) := []
  reported : List (Node α) := []

/-- The watch before a run: to stop after no unit is to stop at once. -/
def Watch.start (limit : Option Nat) (s : σ) : Watch σ α :=
  { backend := s, flag := limit.map fun n => if n = 0 then StopFlag.request {} else {} }

/-- The surroundings of a watched traversal; the flag is raised after `limit` reports. -/
def Host.watched (decompile : Node α → σ → Except UnitFailure String × σ) (limit : Option Nat) :
    Host (Watch σ α) α where
  stops w := w.flag.any fun flag => !flag.isRunning
  decompile unit w :=
    let (answer, backend) := decompile unit w.backend
    (answer, { w with backend, handed := w.handed ++ [unit] })
  report unit w :=
    { w with
      reported := w.reported ++ [unit]
      flag := if limit = some (w.reported.length + 1) then w.flag.map StopFlag.request else w.flag }

/-! ## The watch between units -/

/-- The watch when the units of `done` are done with. -/
def Watch.amid (limit : Option Nat) (done : List (Node α)) (s : σ) : Watch σ α :=
  ⟨s, limit.map fun n => ⟨decide (n ≤ done.length)⟩, done, done⟩

namespace Traversal

variable (decompile : Node α → σ → Except UnitFailure String × σ) (limit : Option Nat)

theorem start_eq_amid (s : σ) : (Watch.start limit s : Watch σ α) = Watch.amid limit [] s := by
  rcases limit with _ | _ | n <;> rfl

theorem stops_amid (done : List (Node α)) (s : σ) :
    (Host.watched decompile limit).stops (Watch.amid limit done s) = true ↔
      ∃ n, limit = some n ∧ n ≤ done.length := by
  cases limit <;> simp [Host.watched, Watch.amid, StopFlag.isRunning]

theorem after_watched (done : List (Node α)) (unit : Node α) (s : σ) :
    (Host.watched decompile limit).after unit (Watch.amid limit done s) =
      Watch.amid limit (done ++ [unit]) (decompile unit s).2 := by
  simp only [Host.after, Host.watched, Watch.amid, Watch.mk.injEq, and_true, true_and]
  rcases limit with _ | n
  · rfl
  · by_cases e : n = done.length + 1
    · simp [e, StopFlag.request]
    · simp only [Option.some.injEq, e, if_false, Option.map_some, StopFlag.mk.injEq, List.length_append,
        List.length_singleton, decide_eq_decide]
      omega

/-- The state of the backend alone after units were handed to it. -/
def backendAfter : List (Node α) → σ → σ
  | [], s => s
  | unit :: rest, s => backendAfter rest (decompile unit s).2

theorem afterAll_watched (done units : List (Node α)) (s : σ) :
    (Host.watched decompile limit).afterAll units (Watch.amid limit done s) =
      Watch.amid limit (done ++ units) (backendAfter decompile units s) := by
  induction units generalizing done s with
  | nil => simp [Host.afterAll, backendAfter]
  | cons unit rest ih =>
    rw [Host.afterAll, after_watched, ih, backendAfter, List.append_assoc, List.singleton_append]

/-- The backend does not notice the flag. -/
theorem answers_watched (done units : List (Node α)) (s : σ) :
    (Host.watched decompile limit).answers units (Watch.amid limit done s) =
      (Host.watched decompile none).answers units (Watch.amid none done s) := by
  induction units generalizing done s with
  | nil => rfl
  | cons unit rest ih =>
    simp only [Host.answers, after_watched, ih]
    rfl

theorem undisturbed_watched (done units : List (Node α)) (s : σ)
    (h : ∀ n, limit = some n → done.length + units.length ≤ n) :
    (Host.watched decompile limit).Undisturbed units (Watch.amid limit done s) := by
  induction units generalizing done s with
  | nil => trivial
  | cons unit rest ih =>
    refine ⟨?_, ?_⟩
    · rw [Bool.eq_false_iff]
      intro hs
      obtain ⟨n, hn, hle⟩ := (stops_amid decompile limit done s).mp hs
      have := h n hn
      simp only [List.length_cons] at this
      omega
    · rw [after_watched]
      refine ih (done ++ [unit]) _ fun n hn => ?_
      have := h n hn
      simp only [List.length_append, List.length_cons, List.length_nil] at this ⊢
      omega

/-! ## Steps up to a raised flag -/

/-- A row of steps with more than `n` units is cut in front of the next unit after the first `n`. -/
theorem exists_cut (row : List (Step α)) (n : Nat) (h : n < (row.filterMap Step.unit?).length) :
    ∃ front place node back, row = front ++ .unit place node :: back ∧
      front.filterMap Step.unit? = (row.filterMap Step.unit?).take n := by
  induction row generalizing n with
  | nil => simp at h
  | cons step rest ih =>
    cases step with
    | directory place name =>
      obtain ⟨front, place', node, back, e, hu⟩ := ih n h
      exact ⟨.directory place name :: front, place', node, back, by rw [e, List.cons_append], hu⟩
    | unit place node =>
      cases n with
      | zero => exact ⟨[], place, node, rest, rfl, rfl⟩
      | succ n =>
        obtain ⟨front, place', node', back, e, hu⟩ := ih n (Nat.lt_of_succ_lt_succ h)
        refine ⟨.unit place node :: front, place', node', back, by rw [e, List.cons_append], ?_⟩
        simp only [List.filterMap_cons, Step.unit?, hu, List.take_succ_cons]

/-- The next unit after a raised flag is not touched. -/
theorem performAll_cancelled (h : Host σ α) {front : List (Step α)} {t after : Traversal σ}
    (hf : performAll h front t = (.ok (), after)) (hs : h.stops after.state = true) (place : List String)
    (node : Node α) (back : List (Step α)) :
    performAll h (front ++ .unit place node :: back) t = (.error .cancelled, after) := by
  simp only [performAll_append, hf, performAll, perform, visitUnit, hs, if_true]

/-! ## A whole run -/

/-- A run whose flag is raised after the last unit, or never, comes to its end. -/
theorem run_finishes {root : Node α} (hr : root.children ≠ []) (s : σ)
    (hl : ∀ n, limit = some n → root.unitCount ≤ n) :
    ∃ t, run (Host.watched decompile limit) root { state := Watch.start limit s } = (.ok (), t) ∧
      t.state = Watch.amid limit root.units (backendAfter decompile root.units s) ∧
      t.draft.entries = firstNew [] (written (steps root)
        ((Host.watched decompile none).answers root.units (Watch.amid none [] s))) := by
  have hu : (Host.watched decompile limit).Undisturbed ((steps root).filterMap Step.unit?)
      (Watch.amid limit [] s) := by
    refine undisturbed_watched decompile limit [] _ s fun n hn => ?_
    rw [units_steps, List.length_nil, Nat.zero_add]
    exact hl n hn
  obtain ⟨d, e, ht⟩ := performAll_takes (Host.watched decompile limit) (steps root)
    (t := { state := Watch.amid limit [] s }) Draft.named_fresh hu
  rw [units_steps] at e ht
  refine ⟨_, by rw [start_eq_amid, run_eq_performAll _ hr, e], ?_, ?_⟩
  · exact afterAll_watched decompile limit [] root.units s
  · rw [ht.entries, answers_watched]; rfl

/-- A run whose flag is raised while a unit is left is cancelled in front of that unit. -/
theorem run_cancelled {root : Node α} (hr : root.children ≠ []) (s : σ) {n : Nat}
    (hn : n < root.unitCount) :
    ∃ t front back, run (Host.watched decompile (some n)) root { state := Watch.start (some n) s } =
        (.error .cancelled, t) ∧
      t.state = Watch.amid (some n) (root.units.take n) (backendAfter decompile (root.units.take n) s) ∧
      steps root = front ++ back ∧
      t.draft.entries = firstNew [] (written front
        ((Host.watched decompile none).answers (front.filterMap Step.unit?) (Watch.amid none [] s))) := by
  obtain ⟨front, place, node, back, hrow, hu⟩ := exists_cut (steps root) n (by rw [units_steps]; exact hn)
  rw [units_steps] at hu
  have hlen : (root.units.take n).length = n := List.length_take_of_le (Nat.le_of_lt hn)
  obtain ⟨d, e, ht⟩ := performAll_takes (Host.watched decompile (some n)) front
    (t := { state := Watch.amid (some n) [] s }) Draft.named_fresh
    (undisturbed_watched decompile (some n) [] _ s (by simp [hu, hlen]))
  have hstate := afterAll_watched decompile (some n) [] (front.filterMap Step.unit?) s
  rw [List.nil_append, hu] at hstate
  have hstop : (Host.watched decompile (some n)).stops
      ((Host.watched decompile (some n)).afterAll (front.filterMap Step.unit?) (Watch.amid (some n) [] s))
        = true := by
    rw [hu, hstate, stops_amid]
    exact ⟨n, rfl, Nat.le_of_eq hlen.symm⟩
  have hrun := performAll_cancelled _ e hstop place node back
  rw [← hrow, ← run_eq_performAll _ hr] at hrun
  rw [start_eq_amid]
  refine ⟨_, front, _, hrun, ?_, hrow, ?_⟩
  · rw [hu]; exact hstate
  · rw [ht.entries, answers_watched]; rfl

/-- However many units are reported before the flag is raised, the units handed to the backend and the
units reported are the first ones up to that number; the run is cancelled exactly if a unit is left, and
what it wrote is where the undisturbed run starts. -/
theorem run_stops_after_limit {root : Node α} (hr : root.children ≠ []) (s : σ) :
    let stopped := run (Host.watched decompile limit) root { state := Watch.start limit s }
    let whole := run (Host.watched decompile none) root { state := Watch.start none s }
    let count := (limit.map fun n => min n root.unitCount).getD root.unitCount
    stopped.2.state.handed = root.units.take count ∧ stopped.2.state.reported = root.units.take count ∧
      (stopped.1 = .error .cancelled ↔ ∃ n, limit = some n ∧ n < root.unitCount) ∧
      (stopped.1 = .error .cancelled ∨ stopped.1 = .ok ()) ∧
      stopped.2.draft.entries <+: whole.2.draft.entries := by
  intro stopped whole count
  obtain ⟨w, hw, -, hwe⟩ := run_finishes decompile none hr s (by simp)
  by_cases hl : ∃ n, limit = some n ∧ n < root.unitCount
  · obtain ⟨n, rfl, hn⟩ := hl
    obtain ⟨t, front, back, ht, hts, hrow, hte⟩ := run_cancelled decompile hr s hn
    have hc : count = n := Nat.min_eq_left (Nat.le_of_lt hn)
    refine ⟨?_, ?_, ?_, ?_, ?_⟩
    · simp only [stopped, ht, hts, hc, Watch.amid]
    · simp only [stopped, ht, hts, hc, Watch.amid]
    · simp [stopped, ht, hn]
    · exact Or.inl (by simp only [stopped, ht])
    · simp only [stopped, whole, ht, hw, hte, hwe]
      rw [← units_steps, hrow, written_append, firstNew_append]
      exact List.prefix_append _ _
  · have hle : ∀ n, limit = some n → root.unitCount ≤ n := fun n hn =>
      Nat.le_of_not_lt fun hlt => hl ⟨n, hn, hlt⟩
    obtain ⟨t, ht, hts, hte⟩ := run_finishes decompile limit hr s hle
    have hc : root.units.take count = root.units := by
      refine List.take_of_length_le ?_
      cases limit with
      | none => exact Nat.le_refl _
      | some n => exact Nat.le_min.mpr ⟨hle n rfl, Nat.le_refl _⟩
    refine ⟨?_, ?_, ?_, ?_, ?_⟩
    · simp only [stopped, ht, hts, hc, Watch.amid]
    · simp only [stopped, ht, hts, hc, Watch.amid]
    · simp [stopped, ht, hl]
    · exact Or.inr (by simp only [stopped, ht])
    · simp only [stopped, whole, ht, hw, hte, hwe]
      exact List.prefix_refl _

/-- Three classes in two directories, stopped after the first: the second directory is not written. -/
theorem stopped_after_the_first_unit :
    let decompile : Node Unit → Nat → Except UnitFailure String × Nat := fun unit calls =>
      (.ok unit.baseName, calls + 1)
    let class_ (name : String) : Node Unit := .file name name ()
    let root : Node Unit := .directory "lib.jar" "" [
      .directory "a" "" [class_ "A.class"], .directory "b" "" [class_ "B.class"], class_ "C.class"]
    let stopped := run (Host.watched decompile (some 1)) root { state := Watch.start (some 1) 0 }
    root.unitCount = 3 ∧ stopped.1 = .error .cancelled ∧
      stopped.2.state.reported.map Node.name = ["A.class"] ∧
      stopped.2.draft.entries.map DraftEntry.name = ["a/", "a/A.java", "b/"] := by
  intro decompile class_ root stopped
  have hr : root.children ≠ [] := List.cons_ne_nil _ _
  obtain ⟨-, hrep, hc, -, -⟩ := run_stops_after_limit decompile (some 1) hr 0
  refine ⟨by decide +kernel, hc.mpr ⟨1, rfl, by decide +kernel⟩, ?_, by decide +kernel⟩
  exact (congrArg (List.map Node.name) hrep).trans (by decide +kernel)

end Traversal

end SourceJar
