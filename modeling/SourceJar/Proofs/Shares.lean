import Mathlib
import SourceJar.Batch.Progress

/-!
Shares of jobs as exact numbers.

The share of a stage is clamped before it is entered, and a job's entry never falls, so the fraction of a batch only
rises and stays between nothing and all, whatever is reported. Where the reports of each job rise by themselves, the
guards do nothing: an entry is replaced by the share that is reported.

- `getElem?_sharesAfter`: the entry of a job depends on what the job reports and on nothing else.
- `pairwise_fractions`, `fractions_bounds`: the fractions rise between nothing and all.
- `advance_eq_set`: where a job's reports rise, its entry is the share that it reported last.
- `getLast?_fractions`: once every job has finished, the fraction is one.
-/

namespace SourceJar

/-- Whether a stage is that of a unit that is done with. -/
def Stage.isUnit : Stage → Bool
  | .unit .. => true
  | _ => false

namespace Progress

variable {shares : List Rat} {reports before after : List ProgressEvent} {e : ProgressEvent} {n : Nat}

/-- The shares of all jobs after reports, where there were none before. -/
def sharesAfter (jobs : Nat) (reports : List ProgressEvent) : List Rat :=
  reports.foldl advance (List.replicate jobs (ShareNumber.ofCount 0))

/-! ## Exact numbers -/

theorem setupShare_eq : (setupShare : Rat) = 1 / 10 := rfl

theorem unitsShare_eq : (unitsShare : Rat) = 7 / 10 := rfl

theorem setupShare_nonneg : (0 : Rat) ≤ setupShare := by
  rw [setupShare_eq]
  norm_num

theorem unitsShare_nonneg : (0 : Rat) ≤ unitsShare := by
  rw [unitsShare_eq]
  norm_num

theorem setup_add_units : (setupShare + unitsShare : Rat) = 8 / 10 := by
  rw [setupShare_eq, unitsShare_eq]
  norm_num

theorem share_unit (done total : Nat) :
    (share (.unit done total) : Rat) = 1 / 10 + 7 / 10 * done / (max total 1 : Nat) := rfl

theorem share_finished : (share .finished : Rat) = 1 := rfl

theorem setupShare_le_share_unit (done total : Nat) : (setupShare : Rat) ≤ share (.unit done total) := by
  rw [setupShare_eq, share_unit]
  exact le_add_of_nonneg_right (by positivity)

theorem share_unit_mono {done later : Nat} (h : done ≤ later) (total : Nat) :
    (share (.unit done total) : Rat) ≤ share (.unit later total) := by
  rw [share_unit, share_unit]
  gcongr

/-- The last unit of all fills the share of the units. -/
theorem share_unit_all {total : Nat} (h : total ≠ 0) :
    (share (.unit total total) : Rat) = setupShare + unitsShare := by
  have hpos : (total : Rat) ≠ 0 := Nat.cast_ne_zero.mpr h
  rw [share_unit, max_eq_left (Nat.one_le_iff_ne_zero.mpr h), setup_add_units, mul_div_assoc, div_self hpos]
  norm_num

theorem share_unit_le {done total : Nat} (h : done ≤ total) :
    (share (.unit done total) : Rat) ≤ setupShare + unitsShare := by
  rcases Nat.eq_zero_or_pos total with rfl | hpos
  · rw [Nat.le_zero.mp h, share_unit, setup_add_units]
    norm_num
  · rw [← share_unit_all hpos.ne']
    exact share_unit_mono h total

theorem max_eq (x y : Rat) : ShareNumber.toMax.max x y = max x y := by
  change (if x.blt y then y else x) = max x y
  have hlt : x.blt y = true ↔ x < y := Iff.rfl
  by_cases h : x < y
  · rw [if_pos (hlt.mpr h), max_eq_right h.le]
  · rw [if_neg (mt hlt.mp h), max_eq_left (not_lt.mp h)]

theorem min_eq (x y : Rat) : ShareNumber.toMin.min x y = min x y := by
  change (if x.blt y then x else y) = min x y
  have hlt : x.blt y = true ↔ x < y := Iff.rfl
  by_cases h : x < y
  · rw [if_pos (hlt.mpr h), min_eq_left h.le]
  · rw [if_neg (mt hlt.mp h), min_eq_right (not_lt.mp h)]

theorem clamp_eq (x : Rat) : clamp x = min (max x 0) 1 := by
  rw [clamp, min_eq, max_eq]
  rfl

theorem clamp_bounds (x : Rat) : 0 ≤ clamp x ∧ clamp x ≤ 1 := by
  rw [clamp_eq]
  exact ⟨le_min (le_max_right x 0) zero_le_one, min_le_right _ 1⟩

theorem clamp_of_bounds {x : Rat} (h : 0 ≤ x ∧ x ≤ 1) : clamp x = x := by
  rw [clamp_eq, max_eq_left h.1, min_eq_left h.2]

theorem mean_eq (shares : List Rat) : mean shares = shares.sum / (max shares.length 1 : Nat) := by
  rw [List.sum_eq_foldl]
  rfl

theorem advance_eq (shares : List Rat) (e : ProgressEvent) :
    advance shares e = shares.modify e.job fun old => max old (clamp (share e.stage)) := by
  simp only [advance, max_eq]

/-! ## The entry of one job -/

/-- The entry of a job after its reports. -/
def entryAfter (entry : Rat) (reports : List ProgressEvent) : Rat :=
  reports.foldl (fun old e => max old (clamp (share e.stage))) entry

theorem le_entryAfter (entry : Rat) (reports : List ProgressEvent) : entry ≤ entryAfter entry reports := by
  induction reports generalizing entry with
  | nil => exact le_rfl
  | cons e rest ih => exact (le_max_left _ _).trans (ih _)

theorem share_le_entryAfter (entry : Rat) (he : e ∈ reports) : clamp (share e.stage) ≤ entryAfter entry reports := by
  induction reports generalizing entry with
  | nil => cases he
  | cons first rest ih =>
    rcases List.mem_cons.mp he with rfl | he
    · exact (le_max_right _ _).trans (le_entryAfter _ rest)
    · exact ih _ he

theorem entryAfter_le {entry bound : Rat} (h : entry ≤ bound) (hr : ∀ e ∈ reports, clamp (share e.stage) ≤ bound) :
    entryAfter entry reports ≤ bound := by
  induction reports generalizing entry with
  | nil => exact h
  | cons first rest ih =>
    exact ih (max_le h (hr first List.mem_cons_self)) fun e he => hr e (List.mem_cons_of_mem _ he)

theorem entryAfter_bounds (reports : List ProgressEvent) : 0 ≤ entryAfter 0 reports ∧ entryAfter 0 reports ≤ 1 :=
  ⟨le_entryAfter 0 reports, entryAfter_le zero_le_one fun _ _ => (clamp_bounds _).2⟩

theorem getElem?_foldl_advance (shares : List Rat) (reports : List ProgressEvent) (i : Nat) :
    (reports.foldl advance shares)[i]? =
      shares[i]?.map fun entry => entryAfter entry (reports.filter (·.job == i)) := by
  induction reports generalizing shares with
  | nil => simp [entryAfter]
  | cons e rest ih =>
    rw [List.foldl_cons, ih, advance_eq, List.getElem?_modify]
    by_cases h : e.job = i
    · simp only [h, if_true, List.filter_cons, beq_self_eq_true, Option.map_eq_map, Option.map_map]
      rfl
    · simp [h]

/-- The entry of a job depends on what the job reports and on nothing else. -/
theorem getElem?_sharesAfter (n : Nat) (reports : List ProgressEvent) (i : Nat) :
    (sharesAfter n reports)[i]? = if i < n then some (entryAfter 0 (reports.filter (·.job == i))) else none := by
  rw [sharesAfter, getElem?_foldl_advance, List.getElem?_replicate]
  split <;> rfl

theorem length_sharesAfter (n : Nat) (reports : List ProgressEvent) : (sharesAfter n reports).length = n := by
  rw [sharesAfter]
  induction reports using List.reverseRecOn with
  | nil => exact List.length_replicate
  | append_singleton front e ih => rw [List.foldl_concat, advance, List.length_modify, ih]

theorem sharesAfter_bounds {x : Rat} (hx : x ∈ sharesAfter n reports) : 0 ≤ x ∧ x ≤ 1 := by
  obtain ⟨i, hi⟩ := List.mem_iff_getElem?.mp hx
  rw [getElem?_sharesAfter] at hi
  split at hi
  · obtain rfl := Option.some.inj hi
    exact entryAfter_bounds _
  · cases hi

/-! ## The fraction of a batch -/

theorem mean_mono {lower upper : List Rat} (h : List.Forall₂ (· ≤ ·) lower upper) : mean lower ≤ mean upper := by
  rw [mean_eq, mean_eq, h.length_eq]
  exact div_le_div_of_nonneg_right (List.Forall₂.sum_le_sum h) (Nat.cast_nonneg _)

theorem mean_bounds (h : ∀ x ∈ shares, 0 ≤ x ∧ x ≤ 1) : 0 ≤ mean shares ∧ mean shares ≤ 1 := by
  rw [mean_eq]
  refine ⟨div_nonneg (List.sum_nonneg fun x hx => (h x hx).1) (Nat.cast_nonneg _), ?_⟩
  refine div_le_one_of_le₀ ?_ (Nat.cast_nonneg _)
  have hsum : shares.sum ≤ shares.length := by
    simpa using List.sum_le_card_nsmul shares 1 fun x hx => (h x hx).2
  exact hsum.trans (Nat.cast_le.mpr (le_max_left _ 1))

theorem mean_replicate_one (hn : n ≠ 0) : mean (List.replicate n (1 : Rat)) = 1 := by
  have hone : 1 ≤ n := Nat.one_le_iff_ne_zero.mpr hn
  rw [mean_eq, List.sum_replicate, List.length_replicate, max_eq_left hone, nsmul_one]
  exact div_self (Nat.cast_ne_zero.mpr hn)

/-- A report lowers no entry. -/
theorem le_advance (shares : List Rat) (e : ProgressEvent) : List.Forall₂ (· ≤ ·) shares (advance shares e) := by
  rw [advance_eq]
  refine List.forall₂_iff_get.mpr ⟨by rw [List.length_modify], fun i h h' => ?_⟩
  simp only [List.get_eq_getElem, List.getElem_modify]
  split
  · exact le_max_left _ _
  · exact le_rfl

theorem mean_le_fractionsFrom {x : Rat} (hx : x ∈ fractionsFrom shares reports) : mean shares ≤ x := by
  induction reports generalizing shares with
  | nil => cases hx
  | cons e rest ih =>
    have hstep := mean_mono (le_advance shares e)
    rcases List.mem_cons.mp hx with rfl | hx
    · exact hstep
    · exact hstep.trans (ih hx)

theorem pairwise_fractionsFrom (shares : List Rat) (reports : List ProgressEvent) :
    (fractionsFrom shares reports).Pairwise (· ≤ ·) := by
  induction reports generalizing shares with
  | nil => exact List.Pairwise.nil
  | cons e rest ih => exact List.pairwise_cons.mpr ⟨fun x hx => mean_le_fractionsFrom hx, ih _⟩

/-- The fractions never fall, whatever is reported. -/
theorem pairwise_fractions (n : Nat) (reports : List ProgressEvent) :
    (fractions n reports : List Rat).Pairwise (· ≤ ·) :=
  pairwise_fractionsFrom _ reports

theorem fractions_concat (n : Nat) (reports : List ProgressEvent) (e : ProgressEvent) :
    (fractions n (reports ++ [e]) : List Rat) = fractions n reports ++ [mean (sharesAfter n (reports ++ [e]))] := by
  rw [fractions, sharesAfter, List.foldl_concat, fractions]
  generalize List.replicate n (ShareNumber.ofCount 0 : Rat) = shares
  induction reports generalizing shares with
  | nil => rfl
  | cons first rest ih => exact congrArg (_ :: ·) (ih _)

/-- The fractions are between nothing and all, whatever is reported. -/
theorem fractions_bounds {x : Rat} (hx : x ∈ (fractions n reports : List Rat)) : 0 ≤ x ∧ x ≤ 1 := by
  induction reports using List.reverseRecOn with
  | nil => cases hx
  | append_singleton front e ih =>
    rw [fractions_concat] at hx
    rcases List.mem_append.mp hx with hx | hx
    · exact ih hx
    · rw [List.mem_singleton.mp hx]
      exact mean_bounds fun y hy => sharesAfter_bounds hy

/-! ## Reports that rise by themselves -/

/-- Where the reports of a job rise between nothing and all, the job's entry becomes the share that is reported. -/
theorem advance_eq_set (hbounds : 0 ≤ (share e.stage : Rat) ∧ share e.stage ≤ (1 : Rat))
    (hrise : ∀ r ∈ before, r.job = e.job → 0 ≤ (share r.stage : Rat) ∧ (share r.stage : Rat) ≤ share e.stage) :
    advance (sharesAfter n before) e = (sharesAfter n before).set e.job (share e.stage) := by
  refine List.ext_getElem? fun i => ?_
  rw [advance_eq, List.getElem?_modify, List.getElem?_set, length_sharesAfter, getElem?_sharesAfter]
  by_cases hi : i < n
  · by_cases h : e.job = i
    · subst h
      simp only [hi, if_true, Option.map_eq_map, Option.map_some, Option.some.injEq]
      rw [clamp_of_bounds hbounds]
      refine max_eq_right (entryAfter_le hbounds.1 fun r hr => ?_)
      obtain ⟨hm, hjob⟩ := List.mem_filter.mp hr
      obtain ⟨hnonneg, hle⟩ := hrise r hm (by simpa using hjob)
      rw [clamp_of_bounds ⟨hnonneg, hle.trans hbounds.2⟩]
      exact hle
    · simp [hi, h]
  · rw [if_neg hi]
    split <;> simp [*]

/-- Where the reports of each job rise between nothing and all, no share is altered on its way into the entries. -/
theorem entered_as_reported (hbounds : ∀ r ∈ reports, 0 ≤ (share r.stage : Rat) ∧ (share r.stage : Rat) ≤ 1)
    (hrise : ∀ i, ((reports.filter (·.job == i)).map fun r => (share r.stage : Rat)).Pairwise (· ≤ ·))
    (h : reports = before ++ e :: after) :
    clamp (share e.stage) = (share e.stage : Rat) ∧
      advance (sharesAfter n before) e = (sharesAfter n before).set e.job (share e.stage) := by
  subst h
  have he := hbounds e (by simp)
  refine ⟨clamp_of_bounds he, advance_eq_set he fun r hr hjob => ⟨(hbounds r (by simp [hr])).1, ?_⟩⟩
  have hpair := hrise e.job
  rw [List.filter_append, List.map_append, List.pairwise_append] at hpair
  refine hpair.2.2 _ (List.mem_map_of_mem (List.mem_filter.mpr ⟨hr, by simpa using hjob⟩)) _ ?_
  simp

/-- Once every job has finished, the fraction is one. -/
theorem getLast?_fractions (hn : n ≠ 0)
    (hfinished : ∀ i < n, ∃ e ∈ reports, e.job = i ∧ e.stage = .finished) :
    (fractions n reports : List Rat).getLast? = some 1 := by
  have hall : sharesAfter n reports = List.replicate n 1 := by
    refine List.ext_getElem? fun i => ?_
    rw [getElem?_sharesAfter, List.getElem?_replicate]
    split
    · rename_i hi
      obtain ⟨e, he, hjob, hstage⟩ := hfinished i hi
      have hm : e ∈ reports.filter (·.job == i) := List.mem_filter.mpr ⟨he, by simpa using hjob⟩
      have hone := share_le_entryAfter 0 hm
      rw [hstage, share_finished, clamp_of_bounds ⟨zero_le_one, le_rfl⟩] at hone
      rw [le_antisymm (entryAfter_bounds _).2 hone]
    · rfl
  induction reports using List.reverseRecOn with
  | nil =>
    obtain ⟨e, he, -⟩ := hfinished 0 (Nat.pos_of_ne_zero hn)
    cases he
  | append_singleton front e _ => rw [fractions_concat, List.getLast?_concat, hall, mean_replicate_one hn]

end Progress

end SourceJar
