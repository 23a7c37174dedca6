import SourceJar.Proofs.Independence
import SourceJar.Proofs.Uncancelled

/-!
Batches that are asked to stop.

The state in which a batch comes to a source is that of a batch over the sources before (`stateAt`), and what comes of
the source follows from it (`run_step`). Asked to stop after some report, a batch has done until then what it does
anyway (`stateAt_early`), the job that made the report is cancelled if it would still hand a unit to its backend, and
from then on a source is only looked at for its output's name (`run_asked_to_stop`).
-/

namespace SourceJar

open Archive FileSystem

namespace Batch

/-! ## From source to source -/

/-- The state in which a batch comes to a source: that of a batch over the sources before. -/
def stateAt (b : Batch) (sources : List Path) (fs : FileSystem) (i : Nat) : State := (b.run (sources.take i) fs).2

section Conflicts

variable {settings : Settings} {claimed : List (String × Path)}

theorem conflictsAfter_take (sources : List Path) (n : Nat) :
    conflictsAfter settings claimed (sources.take n) = (conflictsAfter settings claimed sources).take n := by
  induction sources generalizing claimed n with
  | nil => rw [List.take_nil, conflictsAfter, List.take_nil]
  | cons source rest ih =>
    cases n with
    | zero => rfl
    | succ n =>
      rw [List.take_succ_cons, conflictsAfter, conflictsAfter]
      split
      · rw [ih, List.take_succ_cons]
      · split <;> rw [ih, List.take_succ_cons]

theorem getElem?_conflictsAfter {earlier : List Path} (ht : IsTable settings claimed earlier) {rest : List Path}
    {i : Nat} {source : Path} (hi : rest[i]? = some source) :
    (conflictsAfter settings claimed rest)[i]? = some (rival? settings (earlier ++ rest.take i) source) := by
  induction rest generalizing claimed earlier i with
  | nil => cases hi
  | cons first rest ih =>
    obtain ⟨claimed', e, ht'⟩ := conflictsAfter_cons ht first rest
    rw [e]
    cases i with
    | zero =>
      obtain rfl : first = source := Option.some.inj hi
      simp
    | succ i => simpa using ih ht' hi

end Conflicts

/-- What comes of a job in a row, and the state after it, from the state after those before. -/
theorem getElem?_runFrom (b : Batch) (index : Nat) {jobs : List (Path × Option Path)} (s : State) {i : Nat}
    {source : Path} {conflict : Option Path} (hi : jobs[i]? = some (source, conflict)) :
    (b.runFrom index jobs s).1[i]? =
        some (b.runSource (index + i) source conflict (b.runFrom index (jobs.take i) s).2).1 ∧
      (b.runFrom index (jobs.take (i + 1)) s).2 =
        (b.runSource (index + i) source conflict (b.runFrom index (jobs.take i) s).2).2 := by
  induction jobs generalizing index s i with
  | nil => cases hi
  | cons first rest ih =>
    obtain ⟨other, rival⟩ := first
    cases i with
    | zero =>
      obtain ⟨rfl, rfl⟩ := Prod.mk.inj (Option.some.inj hi)
      exact ⟨rfl, rfl⟩
    | succ i =>
      have h := ih (index + 1) (b.runSource index other rival s).2 hi
      rw [Nat.add_right_comm, Nat.add_assoc] at h
      exact h

section Steps

variable {b : Batch} {fs : FileSystem} {sources : List Path}

/-- Past its last source a batch goes no further. -/
theorem stateAt_past {i : Nat} (hi : sources[i]? = none) : b.stateAt sources fs (i + 1) = b.stateAt sources fs i := by
  have hlength : sources.length ≤ i := List.getElem?_eq_none_iff.mp hi
  rw [stateAt, stateAt, List.take_of_length_le hlength, List.take_of_length_le (Nat.le_succ_of_le hlength)]

theorem run_eq_stateAt : (b.run sources fs).2 = b.stateAt sources fs sources.length := by
  rw [stateAt, List.take_length]

/-- A batch that reports anything has made its destination. -/
theorem made_of_report {k : Nat} {report : ProgressEvent} (h : (b.run sources fs).2.events[k]? = some report) :
    (fs.makeDirectories b.destination).2 = .ok () := by
  unfold run at h
  rcases hmade : fs.makeDirectories b.destination with ⟨fs', e | _⟩
  · rw [hmade] at h
    cases h
  · rfl

variable (hmade : (fs.makeDirectories b.destination).2 = .ok ())

include hmade

theorem stateAt_zero : b.stateAt sources fs 0 = { fs := b.prepared fs } := by
  rw [stateAt, run_made hmade]
  rfl

/-- What comes of a source, and the state after it, from the state in which the batch comes to it. -/
theorem run_step {i : Nat} {source : Path} (hi : sources[i]? = some source) :
    ∃ r s', b.resultOf i source (rival? b.settings (sources.take i) source) (b.stateAt sources fs i) = (r, s') ∧
      (b.run sources fs).1[i]? = some ⟨source, r⟩ ∧
      b.stateAt sources fs (i + 1) = s'.say i .finished ("Finished " ++ source.display) := by
  have hjob : (sources.zip (conflictsAfter b.settings [] sources))[i]? =
      some (source, rival? b.settings (sources.take i) source) := by
    rw [List.getElem?_zip_eq_some]
    exact ⟨hi, getElem?_conflictsAfter isTable_nil hi⟩
  have hstate : ∀ n, b.stateAt sources fs n = (b.runFrom 0
      ((sources.zip (conflictsAfter b.settings [] sources)).take n) { fs := b.prepared fs }).2 := fun n => by
    rw [stateAt, run_made hmade, conflictsAfter_take]
    exact congrArg (fun jobs => (b.runFrom 0 jobs { fs := b.prepared fs }).2) List.take_zipWith.symm
  have h := b.getElem?_runFrom 0 { fs := b.prepared fs } hjob
  rw [← run_made hmade, ← hstate, ← hstate, Nat.zero_add] at h
  exact ⟨_, _, rfl, h⟩

end Steps

/-! ## What one source says and hands over -/

/-- The units that are handed to a backend for a source; there are none if it is turned down. -/
def handedFor (b : Batch) (index : Nat) (source : Path) (conflict : Option Path) (s : State) : List (Entry × State) :=
  match conflict with
  | some _ => []
  | none => b.handed index source s

/-- The units that are handed to a backend for a source of a batch, each with the state in which it is. -/
def handedAt (b : Batch) (sources : List Path) (fs : FileSystem) (i : Nat) : List (Entry × State) :=
  match sources[i]? with
  | none => []
  | some source => b.handedFor i source (rival? b.settings (sources.take i) source) (b.stateAt sources fs i)

section Sources

variable (b : Batch) (index : Nat) (source : Path) (conflict : Option Path)

theorem resultOf_reports (s : State) :
    Reports index s (b.resultOf index source conflict s).2 ∧
      ∀ e ∈ b.handedFor index source conflict s, e.2.events <+: (b.resultOf index source conflict s).2.events := by
  cases conflict with
  | some first => exact ⟨.refl index s, fun e he => by cases he⟩
  | none => exact b.runJob_reports index source s

theorem resultOf_stopped {count : Nat} {s : State} (hs : s.events.length < count) :
    Stops count (b.unstopped.handedFor index source conflict s) (b.unstopped.resultOf index source conflict s)
      ((b.stoppedAfter count).resultOf index source conflict s) := by
  cases conflict with
  | some first => exact .refl count _
  | none => exact b.runJob_stopped count index source hs

theorem uncancelled_resultOf (s : State) : Uncancelled (b.unstopped.resultOf index source conflict s).1 := by
  cases conflict with
  | some first => exact fun h => Failure.noConfusion (Except.error.inj h)
  | none => exact b.uncancelled_runJob index source s

/-- Once a batch is asked to stop, a source is turned down or cancelled, and nothing is done for it. -/
theorem resultOf_late {s : State} (hs : b.stops s = true) :
    b.resultOf index source conflict s =
      (.error (match conflict with
        | some first => conflictFailure b.settings source first
        | none => .cancelled), s) := by
  cases conflict with
  | some first => rfl
  | none =>
    rw [resultOf, runJob, titleFor, if_pos hs]

variable {b index source conflict}

theorem resultOf_failed (hb : b.Tidy) {s s' : State} (hs : s.fs.WellFormed) {e : Failure}
    (h : b.resultOf index source conflict s = (.error e, s')) : Grown NoScratch s.fs s'.fs := by
  cases conflict with
  | some first =>
    cases h
    exact .refl _ _
  | none => exact (runJob_failed hb hs h).1

theorem resultOf_wellFormed (hb : b.Tidy) {s s' : State} (hs : s.fs.WellFormed) {r : Except Failure ArchiveReport}
    (h : b.resultOf index source conflict s = (r, s')) : s'.fs.WellFormed := by
  cases conflict with
  | some first =>
    cases h
    exact hs
  | none =>
    cases r with
    | error e => exact (runJob_failed hb hs h).2
    | ok report =>
      obtain ⟨title, job, backend, t, grown, spot, -, -, -, -, hput⟩ := runJob_delivered hb hs h
      exact hput.wellFormed

end Sources

/-! ## Reports in a row -/

section Reports

variable {b : Batch} {fs : FileSystem} {sources : List Path} (hmade : (fs.makeDirectories b.destination).2 = .ok ())

include hmade

/-- On the way from one source to the next only the job of the source reports. -/
theorem stateAt_reports (i : Nat) : Reports i (b.stateAt sources fs i) (b.stateAt sources fs (i + 1)) := by
  cases hi : sources[i]? with
  | none =>
    rw [stateAt_past hi]
    exact .refl i _
  | some source =>
    obtain ⟨r, s', hresult, -, hnext⟩ := run_step hmade hi
    have hreports := (b.resultOf_reports i source (rival? b.settings (sources.take i) source)
      (b.stateAt sources fs i)).1
    rw [hresult] at hreports
    rw [hnext]
    exact hreports.trans (reports_say i _ _ _)

theorem stateAt_isPrefix {i j : Nat} (h : i ≤ j) :
    (b.stateAt sources fs i).events <+: (b.stateAt sources fs j).events := by
  induction h with
  | refl => exact List.prefix_rfl
  | step _ ih => exact ih.trans (stateAt_reports hmade _).isPrefix

/-- The job that a report names is the one at work when the report is made. -/
theorem job_of_report {n k : Nat} {report : ProgressEvent} (h : (b.stateAt sources fs n).events[k]? = some report) :
    (b.stateAt sources fs report.job).events.length ≤ k ∧
      k < (b.stateAt sources fs (report.job + 1)).events.length := by
  induction n with
  | zero =>
    rw [stateAt_zero hmade] at h
    cases h
  | succ n ih =>
    obtain ⟨new, e, hnew⟩ := @stateAt_reports b fs sources hmade n
    by_cases hk : k < (b.stateAt sources fs n).events.length
    · rw [e, List.getElem?_append_left hk] at h
      exact ih h
    · have hlast : k < (b.stateAt sources fs (n + 1)).events.length := (List.getElem?_eq_some_iff.mp h).1
      rw [e, List.getElem?_append_right (Nat.le_of_not_lt hk)] at h
      rw [hnew report (List.mem_of_getElem? h)]
      exact ⟨Nat.le_of_not_lt hk, hlast⟩

theorem handedAt_isPrefix {i : Nat} {e : Entry × State} (he : e ∈ b.handedAt sources fs i) :
    e.2.events <+: (b.stateAt sources fs (i + 1)).events := by
  unfold handedAt at he
  split at he
  · cases he
  · rename_i source hi
    obtain ⟨r, s', hresult, -, hnext⟩ := run_step hmade hi
    have hhanded := (b.resultOf_reports i source _ (b.stateAt sources fs i)).2 e he
    rw [hresult] at hhanded
    rw [hnext]
    exact hhanded.trans (reports_say i _ _ _).isPrefix

/-- A tidy batch keeps the file system well-formed from source to source. -/
theorem stateAt_wellFormed (hb : b.Tidy) (hfs : fs.WellFormed) (i : Nat) :
    (b.stateAt sources fs i).fs.WellFormed := by
  induction i with
  | zero =>
    rw [stateAt_zero hmade]
    exact (makeDirectories_grown hfs NoScratch b.destination).2
  | succ i ih =>
    cases hi : sources[i]? with
    | none => rwa [stateAt_past hi]
    | some source =>
      obtain ⟨r, s', hresult, -, hnext⟩ := run_step hmade hi
      have hw : s'.fs.WellFormed := resultOf_wellFormed hb ih hresult
      rw [hnext]
      exact hw

end Reports

/-! ## With and without a request -/

section Request

variable {b : Batch} {fs : FileSystem} {sources : List Path} {count : Nat}
  (hmade : (fs.makeDirectories b.destination).2 = .ok ())

include hmade

/-- What becomes of a source to which a batch comes as it does anyway, before it is asked to stop. -/
theorem run_step_stopped {i : Nat} {source : Path} (hi : sources[i]? = some source)
    (hsame : (b.stoppedAfter count).stateAt sources fs i = b.unstopped.stateAt sources fs i)
    (hearly : (b.unstopped.stateAt sources fs i).events.length < count) :
    ((∃ e ∈ b.unstopped.handedAt sources fs i, count ≤ e.2.events.length) →
      ((b.stoppedAfter count).run sources fs).1[i]? = some ⟨source, .error .cancelled⟩ ∧
        ∃ e ∈ b.unstopped.handedAt sources fs i, count ≤ e.2.events.length ∧
          e.2.events <+: ((b.stoppedAfter count).stateAt sources fs (i + 1)).events) ∧
      ((∀ e ∈ b.unstopped.handedAt sources fs i, e.2.events.length < count) →
        ((b.stoppedAfter count).run sources fs).1[i]? = (b.unstopped.run sources fs).1[i]? ∧
          (b.stoppedAfter count).stateAt sources fs (i + 1) = b.unstopped.stateAt sources fs (i + 1)) := by
  obtain ⟨r, s', hresult, hr, hnext⟩ := run_step (b := b.unstopped) hmade hi
  obtain ⟨r', s'', hresult', hr', hnext'⟩ := run_step (b := b.stoppedAfter count) hmade hi
  have hstops : Stops count (b.unstopped.handedAt sources fs i) (r, s') (r', s'') := by
    rw [handedAt, hi, ← hresult, ← hresult', hsame]
    exact b.resultOf_stopped i source (rival? b.settings (sources.take i) source) hearly
  constructor
  · intro hlate
    obtain ⟨e, he, hafter, hcancelled, hevents⟩ := hstops.cancelled hlate
    obtain rfl : r' = .error .cancelled := hcancelled
    refine ⟨hr', e, he, hafter, ?_⟩
    rw [hnext', ← hevents]
    exact (reports_say i _ _ _).isPrefix
  · intro hbefore
    obtain ⟨rfl, rfl⟩ := Prod.mk.inj (hstops.same hbefore)
    exact ⟨hr'.trans hr.symm, hnext'.trans hnext.symm⟩

section Before

variable {i j : Nat} (hj : (b.unstopped.stateAt sources fs j).events.length < count)

include hj

/-- What is said and handed over before a source comes before the request, if the source does. -/
theorem quiet_before (hij : i < j) :
    (b.unstopped.stateAt sources fs i).events.length < count ∧
      ∀ e ∈ b.unstopped.handedAt sources fs i, e.2.events.length < count := by
  have hlt : ∀ {said : List ProgressEvent}, said <+: (b.unstopped.stateAt sources fs (i + 1)).events →
      said.length < count :=
    fun hsaid => (hsaid.trans (stateAt_isPrefix (b := b.unstopped) hmade hij)).length_le.trans_lt hj
  exact ⟨hlt (stateAt_reports (b := b.unstopped) hmade i).isPrefix,
    fun e he => hlt (handedAt_isPrefix (b := b.unstopped) hmade he)⟩

/-- Until a batch is asked to stop, it comes from source to source as it does anyway. -/
theorem stateAt_early (hij : i ≤ j) :
    (b.stoppedAfter count).stateAt sources fs i = b.unstopped.stateAt sources fs i := by
  induction i with
  | zero =>
    rw [stateAt_zero (b := b.stoppedAfter count) hmade, stateAt_zero (b := b.unstopped) hmade]
    rfl
  | succ i ih =>
    have hsame := ih (Nat.le_of_succ_le hij)
    cases hi : sources[i]? with
    | none => rw [stateAt_past hi, stateAt_past hi, hsame]
    | some source =>
      obtain ⟨hsaid, hhanded⟩ := quiet_before hmade hj hij
      exact ((run_step_stopped hmade hi hsame hsaid).2 hhanded).2

/-- What came of the sources before the request is what comes of them anyway. -/
theorem run_early {source : Path} (hi : sources[i]? = some source) (hij : i < j) :
    ((b.stoppedAfter count).run sources fs).1[i]? = (b.unstopped.run sources fs).1[i]? := by
  obtain ⟨hsaid, hhanded⟩ := quiet_before hmade hj hij
  exact ((run_step_stopped hmade hi (stateAt_early hmade hj (Nat.le_of_lt hij)) hsaid).2 hhanded).1

end Before

/-- Both batches come to the report after which one of them is asked to stop. -/
theorem reports_shared {j : Nat} {source : Path} (hj : sources[j]? = some source)
    (hstart : (b.unstopped.stateAt sources fs j).events.length < count)
    (hend : count ≤ (b.unstopped.stateAt sources fs (j + 1)).events.length) :
    ∃ shared : List ProgressEvent, count ≤ shared.length ∧
      shared <+: (b.unstopped.stateAt sources fs (j + 1)).events ∧
      shared <+: ((b.stoppedAfter count).stateAt sources fs (j + 1)).events := by
  obtain ⟨hcancelled, hsame⟩ := run_step_stopped hmade hj (stateAt_early hmade hstart (Nat.le_refl j)) hstart
  by_cases hlate : ∃ e ∈ b.unstopped.handedAt sources fs j, count ≤ e.2.events.length
  · obtain ⟨-, e, he, hafter, hshared⟩ := hcancelled hlate
    exact ⟨_, hafter, handedAt_isPrefix (b := b.unstopped) hmade he, hshared⟩
  · have hstate := (hsame (by simpa using hlate)).2
    exact ⟨_, hend, List.prefix_rfl, hstate ▸ List.prefix_rfl⟩

/-- What comes of a source after a batch was asked to stop. -/
theorem run_late {i : Nat} {source : Path} (hi : sources[i]? = some source)
    (hlate : count ≤ ((b.stoppedAfter count).stateAt sources fs i).events.length) :
    ((b.stoppedAfter count).run sources fs).1[i]? =
      some ⟨source, .error (match rival? b.settings (sources.take i) source with
        | some first => conflictFailure b.settings source first
        | none => .cancelled)⟩ := by
  obtain ⟨r, s', hresult, hr, -⟩ := run_step (b := b.stoppedAfter count) hmade hi
  have hstops : (b.stoppedAfter count).stops ((b.stoppedAfter count).stateAt sources fs i) = true :=
    decide_eq_true hlate
  rw [resultOf_late _ _ _ _ hstops] at hresult
  rw [hr, ← (Prod.mk.inj hresult).1]
  rfl

/-- A source of a batch that is never asked to stop is not cancelled. -/
theorem run_unstopped_ne {i : Nat} {source other : Path} (hi : sources[i]? = some source) :
    (b.unstopped.run sources fs).1[i]? ≠ some ⟨other, .error .cancelled⟩ := by
  obtain ⟨r, s', hresult, hr, -⟩ := run_step (b := b.unstopped) hmade hi
  have hr' := b.uncancelled_resultOf i source (rival? b.settings (sources.take i) source)
    (b.unstopped.stateAt sources fs i)
  intro h
  rw [hr] at h
  obtain ⟨-, rfl⟩ := Outcome.mk.inj (Option.some.inj h)
  exact hr' (congrArg Prod.fst hresult)

end Request

section Failing

variable {b : Batch} {fs : FileSystem} {sources : List Path} (hmade : (fs.makeDirectories b.destination).2 = .ok ())

include hmade

/-- The outcomes of a batch are those of its sources. -/
theorem source_of_outcome {i : Nat} {o : Outcome} (ho : (b.run sources fs).1[i]? = some o) :
    sources[i]? = some o.source := by
  have hlength := (@run_induct b sources (fun _ _ => True) (fun _ _ _ => True)
    (fun _ _ _ _ _ _ _ => ⟨_, _, rfl, trivial, trivial⟩) fs hmade trivial).1
  have hlt : i < sources.length := hlength ▸ (List.getElem?_eq_some_iff.mp ho).1
  obtain ⟨r, s', -, hr, -⟩ := run_step hmade (List.getElem?_eq_getElem hlt)
  rw [List.getElem?_eq_getElem hlt, ← Option.some.inj (hr.symm.trans ho)]

/-- A source of which nothing comes leaves every file as it was. -/
theorem run_failed (hb : b.Tidy) (hfs : fs.WellFormed) {i : Nat} {source : Path} {e : Failure}
    (h : (b.run sources fs).1[i]? = some ⟨source, .error e⟩) (place : Place) :
    (b.stateAt sources fs (i + 1)).fs.fileAt? place = (b.stateAt sources fs i).fs.fileAt? place := by
  obtain ⟨r, s', hresult, hr, hnext⟩ := run_step hmade (source_of_outcome hmade h)
  rw [h] at hr
  obtain ⟨-, rfl⟩ := Outcome.mk.inj (Option.some.inj hr)
  rw [hnext]
  exact (resultOf_failed hb (stateAt_wellFormed hmade hb hfs i) hresult).fileAt?_eq place

end Failing

/-- A batch that is asked to stop after a report, which is made while one of its jobs is at work. Until then it is the
batch that is not asked. The jobs before come to what they come to anyway; the one at work is cancelled if it would
still hand a unit to its backend, and takes no notice otherwise; and each later one is cancelled, unless an earlier
source has claimed its output's name. If the programs of the batch touch no file but the copies that they are handed,
a cancelled job leaves every file as it was, and no new one. -/
theorem run_asked_to_stop (b : Batch) (sources : List Path) (fs : FileSystem) {k : Nat} {report : ProgressEvent}
    (hreport : (b.unstopped.run sources fs).2.events[k]? = some report) :
    let whole := b.unstopped.run sources fs
    let stopped := (b.stoppedAfter (k + 1)).run sources fs
    let later := ∃ e ∈ b.unstopped.handedAt sources fs report.job, k < e.2.events.length
    stopped.2.events.take (k + 1) = whole.2.events.take (k + 1) ∧
      (∀ i < report.job, stopped.1[i]? = whole.1[i]?) ∧
      (∃ source, sources[report.job]? = some source ∧
        (stopped.1[report.job]? = some ⟨source, .error .cancelled⟩ ↔ later)) ∧
      (¬later → stopped.1[report.job]? = whole.1[report.job]?) ∧
      (∀ (i : Nat) (source : Path), report.job < i → sources[i]? = some source →
        stopped.1[i]? = some ⟨source, .error (match rival? b.settings (sources.take i) source with
          | some first => conflictFailure b.settings source first
          | none => .cancelled)⟩) ∧
      (b.Tidy → fs.WellFormed → ∀ (i : Nat) (source : Path), stopped.1[i]? = some ⟨source, .error .cancelled⟩ →
        ∀ place, ((b.stoppedAfter (k + 1)).stateAt sources fs (i + 1)).fs.fileAt? place =
          ((b.stoppedAfter (k + 1)).stateAt sources fs i).fs.fileAt? place) := by
  have hmade : (fs.makeDirectories b.destination).2 = .ok () := made_of_report (b := b.unstopped) hreport
  rw [run_eq_stateAt] at hreport
  obtain ⟨hstart, hend⟩ := job_of_report (b := b.unstopped) hmade hreport
  obtain ⟨source, hj⟩ : ∃ source, sources[report.job]? = some source := by
    refine Option.ne_none_iff_exists'.mp fun hnone => ?_
    rw [stateAt_past hnone] at hend
    exact absurd hend (Nat.not_lt_of_le hstart)
  have hbefore : (b.unstopped.stateAt sources fs report.job).events.length < k + 1 := Nat.lt_succ_of_le hstart
  obtain ⟨hcancelled, hsame⟩ := run_step_stopped hmade hj (stateAt_early hmade hbefore (Nat.le_refl _)) hbefore
  obtain ⟨shared, hlength, hwhole, hstopped⟩ := reports_shared hmade hj hbefore hend
  have hlast : report.job + 1 ≤ sources.length := (List.getElem?_eq_some_iff.mp hj).1
  intro whole stopped later
  have hearly : ¬later → ∀ e ∈ b.unstopped.handedAt sources fs report.job, e.2.events.length < k + 1 :=
    fun hno e he => Nat.lt_succ_of_le (Nat.le_of_not_lt fun h => hno ⟨e, he, h⟩)
  refine ⟨?_, ?_, ⟨source, hj, fun h => ?_, fun h => (hcancelled h).1⟩, fun hno => (hsame (hearly hno)).1, ?_, ?_⟩
  · have htake : ∀ {said : List ProgressEvent}, shared <+: said → said.take (k + 1) = shared.take (k + 1) := by
      rintro - ⟨rest, rfl⟩
      exact List.take_append_of_le_length hlength
    simp only [stopped, whole, run_eq_stateAt]
    rw [htake (hstopped.trans (stateAt_isPrefix (b := b.stoppedAfter (k + 1)) hmade hlast)),
      htake (hwhole.trans (stateAt_isPrefix (b := b.unstopped) hmade hlast))]
  · intro i hi
    have hlt : i < sources.length := hi.trans hlast
    exact run_early hmade hbefore (List.getElem?_eq_getElem hlt) hi
  · by_contra hno
    exact run_unstopped_ne hmade hj ((hsame (hearly hno)).1.symm.trans h)
  · intro i other hi hother
    refine run_late hmade hother (hlength.trans ?_)
    exact (hstopped.trans (stateAt_isPrefix (b := b.stoppedAfter (k + 1)) hmade hi)).length_le
  · intro hb hfs i other h
    exact run_failed (b := b.stoppedAfter (k + 1)) hmade hb hfs h

/-- A batch whose units are handed to a program. -/
def commandBatch (programs : Programs) : Batch where
  settings :=
    { backend := { kind := .stream, command := some "true" }
      output := { destination := Path.ofText "out" }
      jobs := 1 }
  destination := Path.ofText "out"
  programs := programs

/-- An archive with two classes. -/
def twoClasses : Inode := .file (Zip.encode [⟨"X.class", []⟩, ⟨"Y.class", []⟩])

/-- Of three sources the first is cancelled between its two units, and leaves every file as it was; the second is
cancelled before it is looked at, and the third is turned down. -/
theorem stopped_between_units :
    let b := commandBatch fun _ _ _ fs => (.ok {}, fs)
    let fs := holding [(["a.jar"], twoClasses)]
    let first := Path.ofText "a.jar"
    let second := Path.ofText "b.jar"
    let third := Path.ofText "more/a.jar"
    let stopped := ((b.stoppedAfter 3).run [first, second, third] fs).1
    stopped[0]? = some ⟨first, .error .cancelled⟩ ∧ stopped[1]? = some ⟨second, .error .cancelled⟩ ∧
      stopped[2]? = some ⟨third, .error (.outputConflict "a-sources.jar" "a.jar")⟩ ∧
      ∀ place, ((b.stoppedAfter 3).stateAt [first, second, third] fs 1).fs.fileAt? place =
        ((b.stoppedAfter 3).stateAt [first, second, third] fs 0).fs.fileAt? place := by
  intro b fs first second third stopped
  have hreport : (b.unstopped.run [first, second, third] fs).2.events[2]? = some ⟨0, .unit 1 2, "a.jar: X.class"⟩ := by
    simp only [b, fs, first, second, third]
    cbv
  have hhanded : (b.unstopped.handedAt [first, second, third] fs 0).any
      (fun e => decide (2 < e.2.events.length)) = true := by
    simp only [b, fs, first, second, third]
    cbv
  have htidy : b.Tidy := by
    intro fs fs' backend h
    unfold Backend.make at h
    simp only [b, commandBatch] at h
    split at h <;> cases h
    exact fun _ _ => .refl _
  have hfs : fs.WellFormed := holding_wellFormed (by decide +kernel)
  have hrivals : rival? b.settings [first] second = none ∧ rival? b.settings [first, second] third = some first := by
    simp only [b, first, second, third]
    decide +kernel
  have hconflict : conflictFailure b.settings third first = .outputConflict "a-sources.jar" "a.jar" := by
    simp only [b, first, third]
    cbv
  obtain ⟨-, -, ⟨source, hsource, hcancelled⟩, -, hlater, hfiles⟩ :=
    run_asked_to_stop b [first, second, third] fs hreport
  obtain rfl : first = source := Option.some.inj hsource
  have hfirst := hcancelled.mpr (by simpa using hhanded)
  have hsecond := hlater 1 second (by decide) rfl
  have hthird := hlater 2 third (by decide) rfl
  rw [List.take_succ_cons, List.take_zero, hrivals.1] at hsecond
  rw [List.take_succ_cons, List.take_succ_cons, List.take_zero, hrivals.2] at hthird
  exact ⟨hfirst, hsecond, hthird.trans (congrArg (fun e => some (Outcome.mk third (.error e))) hconflict),
    hfiles htidy hfs 0 first hfirst⟩

/-- A job that is cancelled after its first unit may have removed a file, which the program has done that the unit
was handed to; and a source whose extension is no text is cancelled, even if an archive has claimed the name that its
output would have. -/
theorem cancelled_despite_changes :
    (let b := commandBatch fun _ _ _ fs => (.ok {}, fs.erase [Utf8.encode "notes.txt"])
    let fs := holding [(["a.jar"], twoClasses), (["notes.txt"], .file [])]
    let stopped := (b.stoppedAfter 3).run [Path.ofText "a.jar"] fs
    b.settings.validate fs = .ok () ∧
      stopped.1[0]?.map Outcome.isCancelled = some true ∧
      fs.fileAt? [Utf8.encode "notes.txt"] = some [] ∧ stopped.2.fs.fileAt? [Utf8.encode "notes.txt"] = none) ∧
    (let b := simpleBatch "out" "q-sources"
    let fs := holding []
    let first := Path.ofText "y.q-sources"
    let second : Path := ⟨Utf8.encode "y-sources.q." ++ [0xFF]⟩
    b.settings.validate fs = .ok () ∧ claim? b.settings first = some "y-sources.q-sources" ∧
      (outputName second b.settings.output.suffix).toOption = some "y-sources.q-sources" ∧
      ((b.stoppedAfter 1).run [first, second] fs).1[1]? = some ⟨second, .error .cancelled⟩) := by
  constructor
  · intro b fs stopped
    have hnofile : fs.isFile b.settings.output.destination = false := by
      simp only [b, fs]
      cbv
    refine ⟨by rw [Settings.validate, hnofile]; simp only [b]; rfl, ?_, ?_, ?_⟩ <;> simp only [b, fs, stopped] <;> cbv
  · intro b fs first second
    refine ⟨simpleBatch_valid (by simp only [fs]; cbv), ?_, ?_, ?_⟩ <;> simp only [b, fs, first, second]
    · decide +kernel
    · decide +kernel
    · cbv

end Batch

end SourceJar
