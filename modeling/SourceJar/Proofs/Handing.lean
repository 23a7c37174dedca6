import SourceJar.Proofs.SkeletonJobs

/-!
What a job hands to its backend, and what it comes to if it is asked to stop.

A traversal is recorded by surroundings that keep, next to their state, each unit that is handed to the backend with the
state in which it is. The record changes nothing (`recording_alike`), and it decides what becomes of the traversal if a
request to stop holds in some states: the traversal is cancelled if one of the units on record would be handed over in
such a state, and runs as if nobody had asked otherwise (`run_stopped`). A job stops like its traversal
(`runJob_stopped`), whatever the request.
-/

namespace SourceJar

open Archive Archive.EntryName FileSystem

variable {σ α : Type}

/-! ## Recorded traversals -/

/-- Surroundings that keep a record of the units that are handed to the backend. -/
def Host.recording (h : Host σ α) : Host (σ × List (Node α × σ)) α where
  stops s := h.stops s.1
  decompile unit s := ((h.decompile unit s.1).1, (h.decompile unit s.1).2, s.2 ++ [(unit, s.1)])
  report unit s := (h.report unit s.1, s.2)

/-- Surroundings that ask to stop in some states, and are the same otherwise. -/
def Host.stoppingAt (h : Host σ α) (late : σ → Bool) : Host σ α := { h with stops := late }

namespace Traversal

/-- The units that a traversal hands to the backend, each with the state in which it does. -/
def handed (h : Host σ α) (root : Node α) (s : σ) : List (Node α × σ) :=
  (run h.recording root { state := (s, []) }).2.state.2

/-- A traversal with a record. -/
def withRecord (t : Traversal σ) (record : List (Node α × σ)) : Traversal (σ × List (Node α × σ)) :=
  ⟨(t.state, record), t.draft, t.failed⟩

section Recording

variable (h : Host σ α)

/-- Keeping a record changes nothing. -/
theorem recording_alike (root : Node α) (s : σ) :
    Alike (fun s s' => s = s'.1) (run h root { state := s }) (run h.recording root { state := (s, []) }) := by
  refine run_alike ⟨?_, ?_, ?_, ?_⟩ root rfl
  all_goals
    intros
    subst_vars
    rfl

theorem addDirectory_record (path : String) (t : Traversal σ) (record : List (Node α × σ)) :
    addDirectory path (t.withRecord record) = ((addDirectory path t).1, (addDirectory path t).2.withRecord record) := by
  unfold addDirectory withRecord
  rcases t.draft.addDirectory path with ⟨draft, _ | _⟩ <;> rfl

theorem visitUnit_record (hnever : ∀ s, h.stops s = false) (base : String) (unit : Node α) (t : Traversal σ)
    (record : List (Node α × σ)) :
    visitUnit h.recording base unit (t.withRecord record) =
      ((visitUnit h base unit t).1, (visitUnit h base unit t).2.withRecord (record ++ [(unit, t.state)])) := by
  unfold visitUnit withRecord
  simp only [Host.recording, hnever, Bool.false_eq_true, if_false]
  rcases h.decompile unit t.state with ⟨_ | text, s⟩
  · rfl
  · simp only [addFile]
    rcases t.draft.addFile (base ++ unit.baseName ++ "." ++ sourceExtension) text with ⟨draft, _ | _⟩ <;> rfl

theorem visitUnit_stoppingAt (hnever : ∀ s, h.stops s = false) (late : σ → Bool) (base : String) (unit : Node α)
    (t : Traversal σ) : visitUnit (h.stoppingAt late) base unit t =
      if late t.state then (.error .cancelled, t) else visitUnit h base unit t := by
  unfold visitUnit
  rw [hnever]
  rfl

/-- What becomes of steps if they are asked to stop is read off the record of what they hand over. -/
theorem performAll_stopped (hnever : ∀ s, h.stops s = false) (late : σ → Bool) (row : List (Step α)) (t : Traversal σ)
    (record : List (Node α × σ)) :
    ∃ new, performAll h.recording row (t.withRecord record) =
        ((performAll h row t).1, (performAll h row t).2.withRecord (record ++ new)) ∧
      ((∃ e ∈ new, late e.2 = true) → ∃ e ∈ new, late e.2 = true ∧
        (performAll (h.stoppingAt late) row t).1 = .error .cancelled ∧
        (performAll (h.stoppingAt late) row t).2.state = e.2) ∧
      ((∀ e ∈ new, late e.2 = false) → performAll (h.stoppingAt late) row t = performAll h row t) := by
  induction row generalizing t record with
  | nil => exact ⟨[], by simp [performAll], (fun h => by simp at h), fun _ => rfl⟩
  | cons step rest ih =>
    cases step with
    | directory place name =>
      simp only [performAll, perform, addDirectory_record]
      rcases addDirectory (directoryPath (place ++ [name])) t with ⟨_ | _, t'⟩
      · exact ⟨[], by simp, (fun h => by simp at h), fun _ => rfl⟩
      · exact ih t' record
    | unit place node =>
      simp only [performAll, perform, visitUnit_record h hnever, visitUnit_stoppingAt h hnever]
      rcases visitUnit h (directoryPath place) node t with ⟨_ | _, t'⟩
      · refine ⟨[(node, t.state)], rfl, fun hlate => ?_, fun hearly => ?_⟩
        · obtain ⟨e, he, hlate⟩ := hlate
          rw [List.mem_singleton.mp he] at hlate
          exact ⟨_, List.mem_singleton_self _, hlate, by simp [hlate]⟩
        · simp [hearly _ List.mem_cons_self]
      · obtain ⟨new, hrecord, hstop, hsame⟩ := ih t' (record ++ [(node, t.state)])
        refine ⟨(node, t.state) :: new, by simpa using hrecord, fun hlate => ?_, fun hearly => ?_⟩
        · by_cases hnow : late t.state = true
          · exact ⟨_, List.mem_cons_self, hnow, by simp [hnow]⟩
          · obtain ⟨e, he, hlate⟩ := hlate
            have hm : e ∈ new := by
              refine (List.mem_cons.mp he).resolve_left fun e' => ?_
              rw [e'] at hlate
              exact hnow hlate
            obtain ⟨first, hfirst, hlate, hcut⟩ := hstop ⟨e, hm, hlate⟩
            exact ⟨first, List.mem_cons_of_mem _ hfirst, hlate, by simpa [hnow] using hcut⟩
        · have hnow : late t.state = false := hearly _ List.mem_cons_self
          simpa [hnow] using hsame fun e he => hearly e (List.mem_cons_of_mem _ he)

/-- A traversal that is asked to stop is cancelled where it would hand over a unit after that, and takes no notice if
there is none. -/
theorem run_stopped (hnever : ∀ s, h.stops s = false) (late : σ → Bool) (root : Node α) (s : σ) :
    ((∃ e ∈ handed h root s, late e.2 = true) → ∃ e ∈ handed h root s, late e.2 = true ∧
      (run (h.stoppingAt late) root { state := s }).1 = .error .cancelled ∧
      (run (h.stoppingAt late) root { state := s }).2.state = e.2) ∧
      ((∀ e ∈ handed h root s, late e.2 = false) →
        run (h.stoppingAt late) root { state := s } = run h root { state := s }) := by
  by_cases hc : root.children = []
  · refine ⟨fun hlate => ?_, fun _ => ?_⟩
    · simp [handed, run, hc] at hlate
    · rw [run, run, hc]
      rfl
  · obtain ⟨new, hrecord, hstop, hsame⟩ := performAll_stopped h hnever late (steps root) { state := s } []
    have hhanded : handed h root s = new := by
      rw [handed, run_eq_performAll h.recording hc]
      exact congrArg (fun e => e.2.state.2) hrecord
    rw [hhanded, run_eq_performAll _ hc, run_eq_performAll h hc]
    exact ⟨hstop, hsame⟩

/-- What is said while units are handed over goes on from what was said before. -/
theorem handed_isPrefix {ε : Type} (said : σ → List ε) (hd : ∀ unit s, said s <+: said (h.decompile unit s).2)
    (hr : ∀ unit s, said s <+: said (h.report unit s)) {root : Node α} {s : σ} {e : Node α × σ}
    (he : e ∈ handed h root s) : said e.2 <+: said (run h root { state := s }).2.state := by
  have hrecord := run_invariant (h := h.recording)
    (motive := fun s : σ × List (Node α × σ) => ∀ e ∈ s.2, said e.2 <+: said s.1) (fun unit s hs e he => ?_)
    (fun unit s hs e he => (hs e he).trans (hr unit s.1)) root (t := { state := (s, []) }) (fun e he => by cases he)
  · rw [(recording_alike h root s).state]
    exact hrecord e he
  · rcases List.mem_append.mp he with he | he
    · exact (hs e he).trans (hd unit s.1)
    · rw [List.mem_singleton.mp he]
      exact hd unit s.1

end Recording

end Traversal

namespace Batch

/-- A batch that is never asked to stop. -/
def unstopped (b : Batch) : Batch := { b with stopAfter := none }

/-- A batch that is asked to stop once so many reports were made. -/
def stoppedAfter (b : Batch) (count : Nat) : Batch := { b with stopAfter := some count }

/-! ## What a job hands over -/

/-- The units that an opened job hands to its backend, each with the state in which it does. -/
def handedBy (b : Batch) (job : Job) (s : State) : List (Entry × State) :=
  let directory := (pathOf s.fs.workingDirectory).join b.destination
  match s.fs.makeFresh directory temporaryStart temporaryEnd (.file []) with
  | .error _ => []
  | .ok (fs, _) =>
    match Backend.make b.settings.backend fs with
    | (_, .error _) => []
    | (fs, .ok backend) =>
      Traversal.handed (b.host backend job) job.root
        (({ s with fs, done := 0 }).say job.index .decompiling ("Decompiling " ++ job.title))

/-- The units that the job of a source hands to its backend, each with the state in which it does. -/
def handed (b : Batch) (index : Nat) (source : Path) (s : State) : List (Entry × State) :=
  match b.titleFor source s with
  | .error _ => []
  | .ok title =>
    let s := s.say index .opening ("Opening " ++ title)
    match b.openJob index title source s.fs with
    | .error _ => []
    | .ok job => b.handedBy job s

/-- What becomes of work that is asked to stop after so many reports: it is cancelled where it would hand over a unit
after that, and comes to what it comes to anyway if there is none. -/
structure Stops {β : Type} (count : Nat) (handed : List (Entry × State)) (whole stopped : Except Failure β × State) :
    Prop where
  cancelled : (∃ e ∈ handed, count ≤ e.2.events.length) → ∃ e ∈ handed, count ≤ e.2.events.length ∧
    stopped.1 = .error .cancelled ∧ stopped.2.events = e.2.events
  same : (∀ e ∈ handed, e.2.events.length < count) → stopped = whole

theorem Stops.refl {β : Type} (count : Nat) (done : Except Failure β × State) : Stops count [] done done where
  cancelled h := by simp at h
  same _ := rfl

section Stopping

variable (b : Batch) (count : Nat)

theorem deliver_stopped (job : Job) (backend : Backend) (place : Place) (s : State) :
    Stops count (Traversal.handed (b.unstopped.host backend job) job.root s)
      (b.unstopped.deliver job backend place s) ((b.stoppedAfter count).deliver job backend place s) := by
  have hhost : (b.stoppedAfter count).host backend job =
      (b.unstopped.host backend job).stoppingAt fun s => decide (count ≤ s.events.length) := rfl
  obtain ⟨hcancelled, hsame⟩ := Traversal.run_stopped (b.unstopped.host backend job) (fun _ => rfl)
    (fun s => decide (count ≤ s.events.length)) job.root s
  rw [← hhost] at hcancelled hsame
  constructor
  · intro hlate
    obtain ⟨e, he, hafter, hresult, hstate⟩ := hcancelled (by simpa using hlate)
    refine ⟨e, he, by simpa using hafter, ?_⟩
    unfold deliver
    rcases hrun : Traversal.run ((b.stoppedAfter count).host backend job) job.root { state := s } with ⟨r, t⟩
    rw [hrun] at hresult hstate
    simp only at hresult hstate
    subst hresult
    have hevents : t.state.events = e.2.events := by rw [hstate]
    exact ⟨rfl, hevents⟩
  · intro hearly
    have hrun := hsame (by simpa using hearly)
    unfold deliver
    rw [hrun]

theorem produce_stopped (job : Job) (s : State) :
    Stops count (b.unstopped.handedBy job s) (b.unstopped.produce job s) ((b.stoppedAfter count).produce job s) := by
  have hdeliver := b.deliver_stopped count job
  unfold handedBy produce fill
  simp only [unstopped, stoppedAfter] at hdeliver ⊢
  cases s.fs.makeFresh ((pathOf s.fs.workingDirectory).join b.destination) temporaryStart temporaryEnd (.file []) with
  | error e => exact .refl count _
  | ok made =>
    obtain ⟨fs, place⟩ := made
    simp only
    rcases Backend.make b.settings.backend fs with ⟨fs', e | backend⟩
    · exact .refl count _
    · obtain ⟨hcancelled, hsame⟩ := hdeliver backend place
        (({ s with fs := fs', done := 0 }).say job.index .decompiling ("Decompiling " ++ job.title))
      constructor
      · intro hlate
        obtain ⟨e, he, hafter, hresult, hevents⟩ := hcancelled hlate
        refine ⟨e, he, hafter, ?_⟩
        simp only
        split <;> rename_i hd <;> rw [hd] at hresult hevents
        · cases hresult
        · exact ⟨hresult, hevents⟩
      · intro hearly
        simp only [hsame hearly]

/-- What becomes of the job of a source that starts before the request to stop. -/
theorem runJob_stopped (index : Nat) (source : Path) {s : State} (hs : s.events.length < count) :
    Stops count (b.unstopped.handed index source s) (b.unstopped.runJob index source s)
      ((b.stoppedAfter count).runJob index source s) := by
  have htitle : (b.stoppedAfter count).titleFor source s = b.unstopped.titleFor source s := by
    have hnow : (b.stoppedAfter count).stops s = false := decide_eq_false (Nat.not_le.mpr hs)
    rw [titleFor, titleFor, hnow]
    rfl
  unfold handed runJob
  rw [htitle]
  cases b.unstopped.titleFor source s with
  | error e => exact .refl count _
  | ok title =>
    have hopen : (b.stoppedAfter count).openJob index title source s.fs = b.unstopped.openJob index title source s.fs :=
      rfl
    simp only [State.say, hopen]
    cases b.unstopped.openJob index title source s.fs with
    | error e => exact .refl count _
    | ok job => exact b.produce_stopped count job _

end Stopping

/-! ## What a job reports -/

/-- Between two states nothing was reported but by the job of one index. -/
def Reports (index : Nat) (s s' : State) : Prop :=
  ∃ new, s'.events = s.events ++ new ∧ ∀ event ∈ new, event.job = index

theorem Reports.refl (index : Nat) (s : State) : Reports index s s :=
  ⟨[], (List.append_nil _).symm, fun _ h => by cases h⟩

theorem Reports.trans {index : Nat} {s s' s'' : State} (h : Reports index s s') (h' : Reports index s' s'') :
    Reports index s s'' := by
  obtain ⟨new, e, hn⟩ := h
  obtain ⟨new', e', hn'⟩ := h'
  refine ⟨new ++ new', by rw [e', e, List.append_assoc], fun event hm => ?_⟩
  exact (List.mem_append.mp hm).elim (hn event) (hn' event)

theorem reports_say (index : Nat) (stage : Stage) (text : String) (s : State) :
    Reports index s (s.say index stage text) :=
  ⟨[⟨index, stage, text⟩], rfl, fun _ h => by rw [List.mem_singleton.mp h]⟩

theorem Reports.isPrefix {index : Nat} {s s' : State} (h : Reports index s s') : s.events <+: s'.events := by
  obtain ⟨new, e, -⟩ := h
  exact ⟨new, e.symm⟩

section Reports

variable (b : Batch)

theorem run_reports (backend : Backend) (job : Job) (s : State) :
    Reports job.index s (Traversal.run (b.host backend job) job.root { state := s }).2.state :=
  Traversal.run_invariant (h := b.host backend job) (motive := Reports job.index s) (fun _ _ h => h)
    (fun _ _ h => h.trans (reports_say job.index _ _ _)) job.root (.refl job.index s)

theorem deliver_reports (job : Job) (backend : Backend) (place : Place) (s : State) :
    Reports job.index s (b.deliver job backend place s).2 ∧
      ∀ e ∈ Traversal.handed (b.host backend job) job.root s,
        e.2.events <+: (b.deliver job backend place s).2.events := by
  have hrun := b.run_reports backend job s
  have hhanded := fun e => @Traversal.handed_isPrefix _ _ (b.host backend job) _ State.events
    (fun _ _ => List.prefix_rfl) (fun _ _ => List.prefix_append _ _) job.root s e
  unfold deliver
  rcases hr : Traversal.run (b.host backend job) job.root { state := s } with ⟨_ | _, t⟩ <;>
    simp only [hr] at hrun hhanded
  · exact ⟨hrun, hhanded⟩
  · have hwriting := reports_say job.index .writing ("Writing " ++ job.outputName) t.state
    simp only
    split
    · exact ⟨hrun.trans hwriting, fun e he => (hhanded e he).trans hwriting.isPrefix⟩
    · exact ⟨hrun.trans hwriting, fun e he => (hhanded e he).trans hwriting.isPrefix⟩

theorem produce_reports (job : Job) (s : State) :
    Reports job.index s (b.produce job s).2 ∧
      ∀ e ∈ b.handedBy job s, e.2.events <+: (b.produce job s).2.events := by
  have hdeliver := b.deliver_reports job
  unfold handedBy produce fill
  simp only
  cases s.fs.makeFresh ((pathOf s.fs.workingDirectory).join b.destination) temporaryStart temporaryEnd (.file []) with
  | error e => exact ⟨.refl _ s, fun e he => by cases he⟩
  | ok made =>
    obtain ⟨fs, place⟩ := made
    simp only
    rcases Backend.make b.settings.backend fs with ⟨fs', e | backend⟩
    · exact ⟨.refl _ s, fun e he => by cases he⟩
    · obtain ⟨hreports, hhanded⟩ := hdeliver backend place
        (({ s with fs := fs', done := 0 }).say job.index .decompiling ("Decompiling " ++ job.title))
      have hstart : Reports job.index s
          (({ s with fs := fs', done := 0 }).say job.index .decompiling ("Decompiling " ++ job.title)) :=
        reports_say job.index _ _ { s with fs := fs', done := 0 }
      simp only
      split <;> rename_i hd <;> rw [hd] at hreports hhanded <;> exact ⟨hstart.trans hreports, hhanded⟩

/-- A job reports under its own index, also when it hands units over. -/
theorem runJob_reports (index : Nat) (source : Path) (s : State) :
    Reports index s (b.runJob index source s).2 ∧
      ∀ e ∈ b.handed index source s, e.2.events <+: (b.runJob index source s).2.events := by
  unfold handed runJob
  cases b.titleFor source s with
  | error e => exact ⟨.refl index s, fun e he => by cases he⟩
  | ok title =>
    have hopening := reports_say index .opening ("Opening " ++ title) s
    simp only
    cases hopen : b.openJob index title source (s.say index .opening ("Opening " ++ title)).fs with
    | error e => exact ⟨hopening, fun e he => by cases he⟩
    | ok job =>
      obtain ⟨hreports, hhanded⟩ := b.produce_reports job (s.say index .opening ("Opening " ++ title))
      obtain ⟨root, name, -, -, rfl⟩ := openJob_eq_ok hopen
      exact ⟨hopening.trans hreports, hhanded⟩

end Reports

end Batch

end SourceJar
