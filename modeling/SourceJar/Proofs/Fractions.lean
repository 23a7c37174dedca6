import SourceJar.Proofs.Cancelling
import SourceJar.Proofs.Shares

/-!
What the jobs of a batch report, and the fractions that come of it.

A job hands the first units of its archive to the backend, all of them or those in front of a request to stop, and
reports each under its number among all units (`run_visits`). So it goes one of few courses before it is finished with
(`Course`), and along each of them the shares rise from nothing to eight tenths by themselves. The fractions of a batch
therefore rise to one, in whatever order the reports of its jobs come (`fractions_rise_to_one`).
-/

namespace SourceJar

open Archive FileSystem

variable {σ α : Type}

/-! ## The units that a traversal comes to -/

namespace Traversal

/-- Steps come to all units among them, or to those in front of a request to stop. -/
theorem performAll_visits (h : Host σ α) (row : List (Step α)) {t : Traversal σ} (hd : t.draft.Named) :
    ∃ n, (performAll h row t).2.state = h.afterAll ((row.filterMap Step.unit?).take n) t.state ∧
      ((performAll h row t).1 = .ok () → (row.filterMap Step.unit?).take n = row.filterMap Step.unit?) := by
  induction row generalizing t with
  | nil => exact ⟨0, rfl, fun _ => rfl⟩
  | cons step rest ih =>
    cases step with
    | directory place name =>
      obtain ⟨d, e, ht⟩ := perform_directory h place name hd
      simp only [performAll, e]
      exact ih ht.named
    | unit place node =>
      cases hs : h.stops t.state with
      | true =>
        refine ⟨0, ?_, ?_⟩ <;> simp [performAll, perform, visitUnit, hs, Host.afterAll]
      | false =>
        obtain ⟨d, e, ht⟩ := perform_unit h place node hd hs
        obtain ⟨n, hstate, hall⟩ := ih (t := ⟨h.after node t.state, d, _⟩) ht.named
        simp only [performAll, e]
        exact ⟨n + 1, hstate, fun hok => congrArg (node :: ·) (hall hok)⟩

theorem afterAll_recording (h : Host σ α) (units : List (Node α)) (s : σ) (record : List (Node α × σ)) :
    (h.recording.afterAll units (s, record)).1 = h.afterAll units s ∧
      (h.recording.afterAll units (s, record)).2.map Prod.fst = record.map Prod.fst ++ units := by
  induction units generalizing s record with
  | nil => exact ⟨rfl, (List.append_nil _).symm⟩
  | cons unit rest ih =>
    obtain ⟨hstate, hrecord⟩ := ih (h.after unit s) (record ++ [(unit, s)])
    exact ⟨hstate, by simpa [Host.afterAll, Host.after, Host.recording] using hrecord⟩

/-- A traversal hands over the first units of the tree, all of them if it succeeds, and nothing else changes the state. -/
theorem run_visits (h : Host σ α) (root : Node α) (s : σ) :
    ∃ n, (handed h root s).map Prod.fst = root.units.take n ∧
      (run h root { state := s }).2.state = h.afterAll (root.units.take n) s ∧
      ((run h root { state := s }).1 = .ok () → root.units.take n = root.units) := by
  have hsame := recording_alike h root s
  by_cases hc : root.children = []
  · refine ⟨0, ?_⟩
    simp [handed, run, hc, Host.afterAll]
  · obtain ⟨n, hstate, hall⟩ := performAll_visits h.recording (steps root) (t := { state := (s, []) }) Draft.named_fresh
    rw [units_steps] at hstate hall
    rw [← run_eq_performAll _ hc] at hstate hall
    obtain ⟨hafter, hrecord⟩ := afterAll_recording h (root.units.take n) s []
    refine ⟨n, ?_, ?_, fun hok => hall (hsame.result.symm.trans hok)⟩
    · rw [handed, hstate]
      exact hrecord
    · rw [hsame.state, hstate, hafter]

end Traversal

namespace Batch

open Progress

/-! ## What a job reports -/

/-- The reports of the first units of an opened archive, where some were done with before. -/
def unitReports (job : Job) (done : Nat) (units : List Entry) : List ProgressEvent :=
  units.mapIdx fun k unit =>
    ⟨job.index, .unit (done + k + 1) job.root.unitCount, job.title ++ ": " ++ unit.name⟩

/-- The reports of an opened job up to the first units of its archive. -/
def reportsUpTo (job : Job) (units : List Entry) : List ProgressEvent :=
  ⟨job.index, .opening, "Opening " ++ job.title⟩ :: ⟨job.index, .decompiling, "Decompiling " ++ job.title⟩ ::
    unitReports job 0 units

/-- What the job of a source reports before it is finished with, and the units that it hands over meanwhile: nothing
if it is turned down, its opening if it fails before the first unit, the units up to a failure or a request to stop, or
all units and the writing of the output. -/
inductive Course (b : Batch) (index : Nat) (source : Path) (s : State) : List Entry → List ProgressEvent → Prop
  | silent : Course b index source s [] []
  | opening {title : String} (ht : b.titleFor source s = .ok title) :
      Course b index source s [] [⟨index, .opening, "Opening " ++ title⟩]
  | decompiling {title : String} {job : Job} (ht : b.titleFor source s = .ok title)
      (hj : b.openJob index title source s.fs = .ok job) (n : Nat) :
      Course b index source s (job.root.units.take n) (reportsUpTo job (job.root.units.take n))
  | writing {title : String} {job : Job} (ht : b.titleFor source s = .ok title)
      (hj : b.openJob index title source s.fs = .ok job) :
      Course b index source s job.root.units
        (reportsUpTo job job.root.units ++ [⟨index, .writing, "Writing " ++ job.outputName⟩])

theorem events_afterAll (b : Batch) (backend : Backend) (job : Job) (units : List Entry) (s : State) :
    ((b.host backend job).afterAll units s).events = s.events ++ unitReports job s.done units := by
  induction units generalizing s with
  | nil => exact (List.append_nil _).symm
  | cons unit rest ih =>
    rw [Host.afterAll, ih]
    simp only [Host.after, host, State.say, unitReports, List.mapIdx_cons, List.append_assoc, List.singleton_append]
    simp only [Nat.add_zero, Nat.add_right_comm _ 1, ← Nat.add_assoc]

section Reports

variable (b : Batch)

theorem deliver_course (job : Job) (backend : Backend) (place : Place) (s : State) :
    (∃ n, (Traversal.handed (b.host backend job) job.root s).map Prod.fst = job.root.units.take n ∧
      (b.deliver job backend place s).2.events = s.events ++ unitReports job s.done (job.root.units.take n)) ∨
    (Traversal.handed (b.host backend job) job.root s).map Prod.fst = job.root.units ∧
      (b.deliver job backend place s).2.events = s.events ++ unitReports job s.done job.root.units ++
        [⟨job.index, .writing, "Writing " ++ job.outputName⟩] := by
  obtain ⟨n, hhanded, hstate, hall⟩ := Traversal.run_visits (b.host backend job) job.root s
  have hevents := (congrArg State.events hstate).trans (b.events_afterAll backend job _ s)
  unfold deliver
  rcases hrun : Traversal.run (b.host backend job) job.root { state := s } with ⟨_ | _, t⟩ <;>
    simp only [hrun] at hevents hall
  · exact .inl ⟨n, hhanded, hevents⟩
  · rw [hall trivial] at hhanded hevents
    refine .inr ⟨hhanded, ?_⟩
    simp only
    split <;> rw [← hevents] <;> rfl

theorem index_title_of_openJob {index : Nat} {title : String} {source : Path} {fs : FileSystem} {job : Job}
    (h : b.openJob index title source fs = .ok job) : job.index = index ∧ job.title = title := by
  obtain ⟨root, name, -, -, rfl⟩ := openJob_eq_ok h
  exact ⟨rfl, rfl⟩

theorem produce_course {index : Nat} {source : Path} {s : State} {title : String} {job : Job}
    (ht : b.titleFor source s = .ok title) (hj : b.openJob index title source s.fs = .ok job) :
    ∃ new, (b.produce job (s.say index .opening ("Opening " ++ title))).2.events = s.events ++ new ∧
      Course b index source s ((b.handedBy job (s.say index .opening ("Opening " ++ title))).map Prod.fst) new := by
  have hdeliver := b.deliver_course job
  have hdecompiling := fun n => Course.decompiling ht hj n
  have hwriting := Course.writing ht hj
  obtain ⟨hindex, htitle⟩ := b.index_title_of_openJob hj
  unfold handedBy produce fill
  simp only [reportsUpTo, hindex, htitle] at hdeliver hdecompiling hwriting ⊢
  cases (s.say index .opening ("Opening " ++ title)).fs.makeFresh _ temporaryStart temporaryEnd (.file []) with
  | error e => exact ⟨_, rfl, .opening ht⟩
  | ok made =>
    obtain ⟨fs, place⟩ := made
    simp only
    rcases Backend.make b.settings.backend fs with ⟨fs', e | backend⟩
    · exact ⟨_, rfl, .opening ht⟩
    · simp only
      rcases hdeliver backend place
        (({ s.say index .opening ("Opening " ++ title) with fs := fs', done := 0 }).say index .decompiling
          ("Decompiling " ++ title)) with ⟨n, hhanded, hevents⟩ | ⟨hhanded, hevents⟩ <;>
        simp only [State.say, List.append_assoc, List.singleton_append] at hhanded hevents ⊢ <;> rw [hhanded]
      · refine ⟨_, ?_, hdecompiling n⟩
        split <;> rename_i hd <;> rw [hd] at hevents <;> exact hevents
      · refine ⟨_, ?_, hwriting⟩
        split <;> rename_i hd <;> rw [hd] at hevents <;> exact hevents

/-- What comes of a source is reported along a course. -/
theorem resultOf_course (index : Nat) (source : Path) (conflict : Option Path) (s : State) :
    ∃ new, (b.resultOf index source conflict s).2.events = s.events ++ new ∧
      Course b index source s ((b.handedFor index source conflict s).map Prod.fst) new := by
  cases conflict with
  | some first => exact ⟨[], (List.append_nil _).symm, .silent⟩
  | none =>
    simp only [resultOf, runJob, handedFor, handed]
    cases ht : b.titleFor source s with
    | error e => exact ⟨[], (List.append_nil _).symm, .silent⟩
    | ok title =>
      have hfs : (s.say index .opening ("Opening " ++ title)).fs = s.fs := rfl
      simp only [hfs]
      cases hj : b.openJob index title source s.fs with
      | error e => exact ⟨_, rfl, .opening ht⟩
      | ok job => exact b.produce_course ht hj

end Reports

/-! ## The shares along a course -/

theorem mem_unitReports {job : Job} {done : Nat} {units : List Entry} {e : ProgressEvent} :
    e ∈ unitReports job done units ↔ ∃ k, ∃ h : k < units.length,
      ⟨job.index, .unit (done + k + 1) job.root.unitCount, job.title ++ ": " ++ units[k].name⟩ = e :=
  List.mem_mapIdx

theorem pairwise_unitReports (job : Job) (done : Nat) (units : List Entry) :
    ((unitReports job done units).map fun e => (share e.stage : Rat)).Pairwise (· ≤ ·) := by
  refine List.pairwise_iff_getElem.mpr fun i j hi hj hij => ?_
  simp only [unitReports, List.getElem_map, List.getElem_mapIdx]
  exact share_unit_mono (by omega) _

theorem unitReports_bounds {job : Job} {units : List Entry} (h : units.length ≤ job.root.unitCount)
    {e : ProgressEvent} (he : e ∈ unitReports job 0 units) :
    (setupShare : Rat) ≤ share e.stage ∧ (share e.stage : Rat) ≤ setupShare + unitsShare := by
  obtain ⟨k, hk, rfl⟩ := mem_unitReports.mp he
  exact ⟨setupShare_le_share_unit _ _, share_unit_le (by omega)⟩

/-- After the last of all units, the share of the units is filled. -/
theorem getLast?_unitReports (job : Job) (h : job.root.units ≠ []) :
    ((unitReports job 0 job.root.units).getLast?.map fun e => (share e.stage : Rat)) =
      some (setupShare + unitsShare) := by
  have hcount : 0 < job.root.unitCount := List.length_pos_iff.mpr h
  have hlast : 0 + (job.root.units.length - 1) + 1 = job.root.unitCount := by
    rw [Node.unitCount] at hcount ⊢
    omega
  rw [unitReports, List.getLast?_eq_getElem?, List.length_mapIdx, List.getElem?_mapIdx,
    List.getElem?_eq_getElem (Nat.sub_lt hcount Nat.one_pos)]
  simp only [Option.map_some, hlast, share_unit_all hcount.ne']

theorem reportsUpTo_bounds {job : Job} {units : List Entry} (h : units.length ≤ job.root.unitCount)
    {e : ProgressEvent} (he : e ∈ reportsUpTo job units) :
    0 ≤ (share e.stage : Rat) ∧ (share e.stage : Rat) ≤ setupShare + unitsShare := by
  rw [reportsUpTo, List.mem_cons, List.mem_cons] at he
  rcases he with rfl | rfl | he
  · exact ⟨le_rfl, add_nonneg setupShare_nonneg unitsShare_nonneg⟩
  · exact ⟨setupShare_nonneg, le_add_of_nonneg_right unitsShare_nonneg⟩
  · obtain ⟨hlow, hhigh⟩ := unitReports_bounds h he
    exact ⟨setupShare_nonneg.trans hlow, hhigh⟩

theorem pairwise_reportsUpTo {job : Job} {units : List Entry} (h : units.length ≤ job.root.unitCount) :
    ((reportsUpTo job units).map fun e => (share e.stage : Rat)).Pairwise (· ≤ ·) := by
  simp only [reportsUpTo, List.map_cons, List.pairwise_cons, List.forall_mem_cons, List.forall_mem_map]
  exact ⟨⟨setupShare_nonneg, fun e he => setupShare_nonneg.trans (unitReports_bounds h he).1⟩,
    fun e he => (unitReports_bounds h he).1, pairwise_unitReports job 0 units⟩

namespace Course

variable {b : Batch} {index : Nat} {source : Path} {s : State} {handed : List Entry} {reports : List ProgressEvent}

/-- Along a course no share is more than those of the opening and of the units. -/
theorem share_bounds (h : Course b index source s handed reports) {e : ProgressEvent} (he : e ∈ reports) :
    0 ≤ (share e.stage : Rat) ∧ (share e.stage : Rat) ≤ setupShare + unitsShare := by
  cases h with
  | silent => cases he
  | opening =>
    rw [List.mem_singleton.mp he]
    exact ⟨le_rfl, add_nonneg setupShare_nonneg unitsShare_nonneg⟩
  | decompiling ht hj n => exact reportsUpTo_bounds (List.length_take_le' n _) he
  | writing ht hj =>
    rcases List.mem_append.mp he with he | he
    · exact reportsUpTo_bounds le_rfl he
    · rw [List.mem_singleton.mp he]
      exact ⟨add_nonneg setupShare_nonneg unitsShare_nonneg, le_rfl⟩

/-- Along a course the shares rise. -/
theorem pairwise_shares (h : Course b index source s handed reports) :
    (reports.map fun e => (share e.stage : Rat)).Pairwise (· ≤ ·) := by
  cases h with
  | silent => exact .nil
  | opening => exact List.pairwise_singleton _ _
  | decompiling ht hj n => exact pairwise_reportsUpTo (List.length_take_le' n _)
  | writing ht hj =>
    rw [List.map_append, List.pairwise_append]
    refine ⟨pairwise_reportsUpTo le_rfl, List.pairwise_singleton _ _, fun x hx y hy => ?_⟩
    obtain ⟨e, he, rfl⟩ := List.mem_map.mp hx
    rw [List.mem_singleton.mp hy]
    exact (reportsUpTo_bounds le_rfl he).2

/-- The shares of a job lie between nothing and all, until it is finished with and then. -/
theorem finished_bounds (h : Course b index source s handed reports) (text : String) {e : ProgressEvent}
    (he : e ∈ reports ++ [⟨index, .finished, text⟩]) : 0 ≤ (share e.stage : Rat) ∧ (share e.stage : Rat) ≤ 1 := by
  rcases List.mem_append.mp he with he | he
  · refine ⟨(h.share_bounds he).1, (h.share_bounds he).2.trans ?_⟩
    rw [setup_add_units]
    norm_num
  · rw [List.mem_singleton.mp he]
    exact ⟨zero_le_one, le_rfl⟩

/-- They rise. -/
theorem finished_pairwise (h : Course b index source s handed reports) (text : String) :
    ((reports ++ [(⟨index, .finished, text⟩ : ProgressEvent)]).map fun e => (share e.stage : Rat)).Pairwise (· ≤ ·) := by
  rw [List.map_append, List.pairwise_append]
  refine ⟨h.pairwise_shares, List.pairwise_singleton _ _, fun x hx y hy => ?_⟩
  obtain ⟨e, he, rfl⟩ := List.mem_map.mp hx
  rw [List.mem_singleton.mp hy]
  exact (h.finished_bounds text (List.mem_append_left _ he)).2

/-- The units on a course are those that are handed over. -/
theorem filter_unit (h : Course b index source s handed reports) {title : String} {job : Job}
    (ht : b.titleFor source s = .ok title) (hj : b.openJob index title source s.fs = .ok job) :
    (reports.filter fun e => e.stage.isUnit) = unitReports job 0 handed := by
  have hunits : ∀ units, (unitReports job 0 units).filter (fun e => e.stage.isUnit) = unitReports job 0 units := by
    refine fun units => List.filter_eq_self.mpr fun e he => ?_
    obtain ⟨k, hk, rfl⟩ := mem_unitReports.mp he
    rfl
  have hsame : ∀ {title' job'}, b.titleFor source s = .ok title' → b.openJob index title' source s.fs = .ok job' →
      job' = job := by
    intro title' job' ht' hj'
    obtain rfl := Except.ok.inj (ht'.symm.trans ht)
    exact Except.ok.inj (hj'.symm.trans hj)
  cases h with
  | silent => rfl
  | opening => rfl
  | decompiling ht' hj' n =>
    rw [hsame ht' hj']
    exact hunits _
  | writing ht' hj' =>
    rw [hsame ht' hj', List.filter_append]
    exact (List.append_nil _).trans (hunits _)

end Course

/-! ## The reports of one job among those of a batch -/

section Batches

variable {b : Batch} {fs : FileSystem} {sources : List Path} (hmade : (fs.makeDirectories b.destination).2 = .ok ())

include hmade

theorem job_lt_of_mem {n : Nat} {e : ProgressEvent} (he : e ∈ (b.stateAt sources fs n).events) : e.job < n := by
  obtain ⟨k, hk⟩ := List.mem_iff_getElem?.mp he
  obtain ⟨hstart, -⟩ := job_of_report hmade hk
  by_contra hge
  have hprefix : (b.stateAt sources fs n).events <+: (b.stateAt sources fs e.job).events :=
    stateAt_isPrefix hmade (Nat.le_of_not_lt hge)
  have hlast := hprefix.length_le
  have hlt := (List.getElem?_eq_some_iff.mp hk).1
  omega

theorem filter_later {i n : Nat} (h : i + 1 ≤ n) :
    (b.stateAt sources fs n).events.filter (·.job == i) = (b.stateAt sources fs (i + 1)).events.filter (·.job == i) := by
  induction n, h using Nat.le_induction with
  | base => rfl
  | succ n hn ih =>
    obtain ⟨new, e, hnew⟩ : Reports n (b.stateAt sources fs n) (b.stateAt sources fs (n + 1)) := stateAt_reports hmade n
    have hother : new.filter (·.job == i) = [] := by
      refine List.filter_eq_nil_iff.mpr fun event he => ?_
      rw [hnew event he, beq_iff_eq]
      omega
    rw [e, List.filter_append, ih, hother, List.append_nil]

/-- What a batch reports of one source: what its job reports, and that it is finished with. -/
theorem filter_job {i : Nat} {source : Path} (hi : sources[i]? = some source) :
    ∃ early, (b.run sources fs).2.events.filter (·.job == i) =
        early ++ [⟨i, .finished, "Finished " ++ source.display⟩] ∧
      Course b i source (b.stateAt sources fs i) ((b.handedAt sources fs i).map Prod.fst) early := by
  have hlt : i < sources.length := (List.getElem?_eq_some_iff.mp hi).1
  obtain ⟨r, s', hresult, -, hnext⟩ := run_step hmade hi
  obtain ⟨early, hevents, hcourse⟩ :=
    b.resultOf_course i source (rival? b.settings (sources.take i) source) (b.stateAt sources fs i)
  rw [hresult] at hevents
  have hbefore : (b.stateAt sources fs i).events.filter (·.job == i) = [] := by
    refine List.filter_eq_nil_iff.mpr fun event he => ?_
    rw [beq_iff_eq]
    exact (job_lt_of_mem hmade he).ne
  have hearly : early.filter (·.job == i) = early := by
    obtain ⟨new, e, hnew⟩ := (b.resultOf_reports i source (rival? b.settings (sources.take i) source)
      (b.stateAt sources fs i)).1
    rw [hresult, hevents] at e
    rw [List.append_cancel_left e]
    exact List.filter_eq_self.mpr fun event he => beq_iff_eq.mpr (hnew event he)
  refine ⟨early, ?_, by rwa [handedAt, hi]⟩
  rw [run_eq_stateAt, filter_later hmade hlt, hnext, State.say, hevents, List.filter_append, List.filter_append,
    hbefore, hearly, List.nil_append, List.filter_singleton, beq_self_eq_true]
  rfl

end Batches

/-! ## The reports of a batch in another order -/

section Orders

variable {b : Batch} {fs : FileSystem} {sources : List Path} {order : List ProgressEvent}
  (hmade : (fs.makeDirectories b.destination).2 = .ok ())
  (horder : ∀ i, order.filter (·.job == i) = (b.run sources fs).2.events.filter (·.job == i))

include hmade horder

theorem order_job_lt {e : ProgressEvent} (he : e ∈ order) : e.job < sources.length := by
  have hm : e ∈ (b.run sources fs).2.events.filter (·.job == e.job) :=
    horder e.job ▸ List.mem_filter.mpr ⟨he, beq_self_eq_true _⟩
  rw [run_eq_stateAt] at hm
  exact job_lt_of_mem hmade (List.mem_filter.mp hm).1

/-- Every source is finished with, after a course. -/
theorem order_filter_job {i : Nat} (hi : i < sources.length) : ∃ early text source s handed,
    order.filter (·.job == i) = early ++ [⟨i, .finished, text⟩] ∧ Course b i source s handed early := by
  obtain ⟨early, hearly, hcourse⟩ := filter_job hmade (List.getElem?_eq_getElem hi)
  exact ⟨early, _, _, _, _, (horder i).trans hearly, hcourse⟩

theorem order_bounds {e : ProgressEvent} (he : e ∈ order) : 0 ≤ (share e.stage : Rat) ∧ (share e.stage : Rat) ≤ 1 := by
  have hjob := order_job_lt hmade horder he
  obtain ⟨early, text, source, s, handed, hearly, hcourse⟩ := order_filter_job hmade horder hjob
  exact hcourse.finished_bounds text (hearly ▸ List.mem_filter.mpr ⟨he, beq_self_eq_true _⟩)

theorem order_pairwise (i : Nat) :
    ((order.filter (·.job == i)).map fun e => (share e.stage : Rat)).Pairwise (· ≤ ·) := by
  by_cases hi : i < sources.length
  · obtain ⟨early, text, source, s, handed, hearly, hcourse⟩ := order_filter_job hmade horder hi
    rw [hearly]
    exact hcourse.finished_pairwise text
  · -- no job has such a number
    have hnone : order.filter (·.job == i) = [] :=
      List.filter_eq_nil_iff.mpr fun e he h => hi (eq_of_beq h ▸ order_job_lt hmade horder he)
    rw [hnone]
    exact .nil

end Orders

/-- A batch over any sources whose destination can be made: whatever becomes of its jobs, and in whatever order their
reports are interleaved, its fractions rise between nothing and all and end at one. Until it is finished with, the
shares that a job reports rise by themselves and come to at most eight tenths; the units that it reports are those that
it hands over, each under its number among all units, so that the last unit of an archive that is handed over as a
whole comes to just eight tenths. No share that is reported is altered by the guards: it is a share as it stands, and
becomes the entry of its job. -/
theorem fractions_rise_to_one (b : Batch) {sources : List Path} (hsources : sources ≠ []) {fs : FileSystem}
    (hmade : (fs.makeDirectories b.destination).2 = .ok ()) :
    let reports := (b.run sources fs).2.events
    (∀ order : List ProgressEvent, (∀ i, order.filter (·.job == i) = reports.filter (·.job == i)) →
      let fractions : List Rat := fractions sources.length order
      fractions.Pairwise (· ≤ ·) ∧ (∀ x ∈ fractions, 0 ≤ x ∧ x ≤ 1) ∧ fractions.getLast? = some 1 ∧
      ∀ before e after, order = before ++ e :: after →
        clamp (share e.stage) = (share e.stage : Rat) ∧
        advance (sharesAfter sources.length before) e = (sharesAfter sources.length before).set e.job (share e.stage)) ∧
    ∀ i source, sources[i]? = some source → ∃ early,
      reports.filter (·.job == i) = early ++ [⟨i, .finished, "Finished " ++ source.display⟩] ∧
      (early.map fun e => (share e.stage : Rat)).Pairwise (· ≤ ·) ∧
      (∀ e ∈ early, (share e.stage : Rat) ≤ setupShare + unitsShare) ∧
      ∀ title job, b.titleFor source (b.stateAt sources fs i) = .ok title →
        b.openJob i title source (b.stateAt sources fs i).fs = .ok job →
        let handed := (b.handedAt sources fs i).map Prod.fst
        early.filter (·.stage.isUnit) = unitReports job 0 handed ∧
        (handed = job.root.units → job.root.units ≠ [] →
          ((early.filter (·.stage.isUnit)).getLast?.map fun e => (share e.stage : Rat)) =
            some (setupShare + unitsShare)) := by
  intro reports
  refine ⟨fun order horder => ?_, fun i source hi => ?_⟩
  · refine ⟨pairwise_fractions _ order, fun x hx => fractions_bounds hx,
      getLast?_fractions (by simpa using hsources) fun i hi => ?_,
      fun before e after h => entered_as_reported (fun _ => order_bounds hmade horder) (order_pairwise hmade horder) h⟩
    obtain ⟨early, text, source, s, handed, hearly, -⟩ := order_filter_job hmade horder hi
    have hm : ⟨i, .finished, text⟩ ∈ order.filter (·.job == i) := hearly ▸ List.mem_append_right _ (by simp)
    exact ⟨_, (List.mem_filter.mp hm).1, rfl, rfl⟩
  · obtain ⟨early, hearly, hcourse⟩ := filter_job hmade hi
    refine ⟨early, hearly, hcourse.pairwise_shares, fun e he => (hcourse.share_bounds he).2, ?_⟩
    intro title job ht hj handed
    have hunits := hcourse.filter_unit ht hj
    refine ⟨hunits, fun hall hne => ?_⟩
    rw [hunits]
    change ((unitReports job 0 handed).getLast?.map _) = _
    rw [hall]
    exact getLast?_unitReports job hne

/-- An archive of two classes, stopped after the first of them; the same output claimed again; and a file that is no
archive. -/
theorem fractions_of_a_stopped_batch :
    let b := (commandBatch fun _ _ _ fs => (.ok {}, fs)).stoppedAfter 3
    let fs := holding [(["a.jar"], twoClasses)]
    let sources := [Path.ofText "a.jar", Path.ofText "more/a.jar", Path.ofText "notes.txt"]
    sources ≠ [] ∧ (fs.makeDirectories b.destination).2 = .ok () ∧
      (b.run sources fs).2.events.map (fun e => (e.job, e.stage)) =
        [(0, .opening), (0, .decompiling), (0, .unit 1 2), (0, .finished), (1, .finished), (2, .finished)] ∧
      (fractions 3 (b.run sources fs).2.events : List Rat).getLast? = some 1 := by
  intro b fs sources
  have hsources : sources ≠ [] := List.cons_ne_nil _ _
  have hmade : (fs.makeDirectories b.destination).2 = .ok () := by
    simp only [b, fs]
    cbv
  have hstages : (b.run sources fs).2.events.map (fun e => (e.job, e.stage)) =
      [(0, .opening), (0, .decompiling), (0, .unit 1 2), (0, .finished), (1, .finished), (2, .finished)] := by
    simp only [b, fs, sources]
    cbv
  obtain ⟨-, -, hlast, -⟩ := (fractions_rise_to_one b hsources hmade).1 (b.run sources fs).2.events fun _ => rfl
  exact ⟨hsources, hmade, hstages, hlast⟩

end Batch

end SourceJar
