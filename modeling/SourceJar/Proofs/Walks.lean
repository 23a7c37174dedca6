import SourceJar.Proofs.Places
import SourceJar.Proofs.Steps

/-!
Where a walk comes to.

In a tree whose siblings do not share directory names, the steps of a walk at a place are those for what
stands there, in order. A walk comes to a directory before it comes to anything below it.

- `filter_place_stepsOfAll`: the steps at a place.
- `directory_mem_stepsOfAll`, `unit_mem_stepsOfAll`: which directories and units a walk comes to.
- `parentsFirst_stepsOfAll`: directories come before what is below them.
-/

namespace SourceJar.Traversal

open Node (Apart atPlace childrenOf directoryNames files)

variable {α : Type}

/-! ## Steps at a place -/

/-- The place that a step is taken at. -/
def Step.place : Step α → List String
  | .directory place _ => place
  | .unit place _ => place

/-- The step that a walk takes for a node itself, before those for the nodes below it. -/
def ownStep? (place : List String) : Node α → Option (Step α)
  | .directory name _ children => if children.isEmpty then none else some (.directory place name)
  | .file name path content =>
    if Node.isUnitName name then some (.unit place (.file name path content)) else none

mutual

theorem prefix_place_of_mem_stepsOf {place : List String} {node : Node α} {step : Step α}
    (h : step ∈ stepsOf place node) : place <+: step.place := by
  cases node with
  | directory name path children =>
    rw [stepsOf] at h
    split at h
    · cases h
    · rcases List.mem_cons.mp h with rfl | h
      · exact List.prefix_rfl
      · exact (List.prefix_append _ _).trans (prefix_place_of_mem_stepsOfAll h)
  | file name path content =>
    rw [stepsOf] at h
    split at h
    · rw [List.mem_singleton.mp h]; exact List.prefix_rfl
    · cases h

theorem prefix_place_of_mem_stepsOfAll {place : List String} {nodes : List (Node α)} {step : Step α}
    (h : step ∈ stepsOfAll place nodes) : place <+: step.place := by
  cases nodes with
  | nil => rw [stepsOfAll] at h; cases h
  | cons node rest =>
    rw [stepsOfAll] at h
    rcases List.mem_append.mp h with h | h
    · exact prefix_place_of_mem_stepsOf h
    · exact prefix_place_of_mem_stepsOfAll h

end

theorem not_concat_prefix_self (place : List String) (x : String) : ¬place ++ [x] <+: place := by
  intro h
  have := h.length_le
  rw [List.length_append, List.length_singleton] at this
  omega

theorem concat_prefix_concat {place q : List String} {x y : String} (hx : place ++ [x] <+: q)
    (hy : place ++ [y] <+: q) : x = y := by
  have := List.prefix_of_prefix_length_le hx hy (by simp)
  simpa using this

/-- The steps of a file are not under any directory. -/
theorem filter_under_file (place : List String) (x name path : String) (content : α) :
    (stepsOf place (.file name path content)).filter (fun step => place ++ [x] <+: step.place) = [] := by
  rw [stepsOf]
  split <;> simp [Step.place, not_concat_prefix_self]

/-- The steps of a directory that are under it are the steps for its children. -/
theorem filter_under_directory (place : List String) (x name path : String) (children : List (Node α)) :
    (stepsOf place (.directory name path children)).filter (fun step => place ++ [x] <+: step.place) =
      if name = x then stepsOfAll (place ++ [x]) children else [] := by
  rw [stepsOf]
  split
  · rename_i hc
    simp [List.isEmpty_iff.mp hc, stepsOfAll]
  · rw [List.filter_cons_of_neg (by simp [Step.place, not_concat_prefix_self])]
    split
    · rename_i hx
      rw [hx]
      exact List.filter_eq_self.mpr fun step hs => decide_eq_true (prefix_place_of_mem_stepsOfAll hs)
    · rename_i hx
      refine List.filter_eq_nil_iff.mpr fun step hs h => hx ?_
      exact concat_prefix_concat (prefix_place_of_mem_stepsOfAll hs) (of_decide_eq_true h)

/-- The steps under a directory are the steps for its children. -/
theorem filter_under_stepsOfAll (place : List String) (x : String) {nodes : List (Node α)}
    (hn : (directoryNames nodes).Nodup) :
    (stepsOfAll place nodes).filter (fun step => place ++ [x] <+: step.place) =
      stepsOfAll (place ++ [x]) (childrenOf x nodes) := by
  induction nodes with
  | nil => simp [stepsOfAll, childrenOf]
  | cons node rest ih =>
    rw [stepsOfAll, List.filter_append]
    cases node with
    | file name path content =>
      rw [filter_under_file]
      exact ih hn
    | directory name path children =>
      rw [Node.directoryNames_directory, List.nodup_cons] at hn
      rw [filter_under_directory, ih hn.2, childrenOf]
      split
      · rename_i hx
        rw [Node.childrenOf_eq_nil (hx ▸ hn.1), stepsOfAll, List.append_nil]
      · rfl

theorem filter_here_stepsOfAll (place : List String) (nodes : List (Node α)) :
    (stepsOfAll place nodes).filter (fun step => step.place = place) = nodes.filterMap (ownStep? place) := by
  induction nodes with
  | nil => simp [stepsOfAll]
  | cons node rest ih =>
    rw [stepsOfAll, List.filter_append, ih]
    cases node with
    | file name path content =>
      rw [stepsOf]
      split <;> rename_i hu <;> simp [ownStep?, hu, Step.place]
    | directory name path children =>
      rw [stepsOf]
      split
      · rename_i hc
        simp [ownStep?, hc]
      · rename_i hc
        have hdeep : (stepsOfAll (place ++ [name]) children).filter (fun step => step.place = place) = [] := by
          refine List.filter_eq_nil_iff.mpr fun step hs h => ?_
          refine not_concat_prefix_self place name ?_
          rw [← of_decide_eq_true h]
          simpa [of_decide_eq_true h] using prefix_place_of_mem_stepsOfAll hs
        rw [List.filter_cons_of_pos (by simp [Step.place]), hdeep]
        simp [ownStep?, hc]

/-- The steps at a place are those for the nodes that stand there, in order. -/
theorem filter_place_stepsOfAll (place p : List String) {nodes : List (Node α)} (h : Apart nodes) :
    (stepsOfAll place nodes).filter (fun step => step.place = place ++ p) =
      (atPlace p nodes).filterMap (ownStep? (place ++ p)) := by
  induction p generalizing place nodes with
  | nil => simpa [atPlace] using filter_here_stepsOfAll place nodes
  | cons x p ih =>
    have hp : place ++ x :: p = place ++ [x] ++ p := by simp
    have hx : Apart (childrenOf x nodes) := h.atPlace [x]
    have hn : (directoryNames nodes).Nodup := h []
    rw [hp, atPlace, ← ih (place ++ [x]) hx, ← filter_under_stepsOfAll place x hn, List.filter_filter]
    refine List.filter_congr fun step _ => ?_
    by_cases hs : step.place = place ++ [x] ++ p
    · rw [hs]
      simp only [List.prefix_append, decide_true, Bool.and_true]
    · simp only [hs, decide_false, Bool.false_and]

theorem ownStep?_eq_directory_iff {p q : List String} {x : String} {node : Node α} :
    ownStep? p node = some (.directory q x) ↔
      p = q ∧ ∃ path children, node = .directory x path children ∧ children ≠ [] := by
  cases node with
  | file name path content => simp [ownStep?]
  | directory name path children =>
    by_cases hc : children = []
    · simp [ownStep?, hc]
    · rw [ownStep?, if_neg (by simpa using hc)]
      constructor
      · intro h
        cases h
        exact ⟨rfl, path, children, rfl, hc⟩
      · intro h
        obtain ⟨rfl, _, _, e, -⟩ := h
        cases e
        rfl

theorem ownStep?_eq_unit_iff {p q : List String} {node unit : Node α} :
    ownStep? p node = some (.unit q unit) ↔ p = q ∧ node = unit ∧ node.isUnit = true := by
  cases node with
  | directory name path children => simp [ownStep?, Node.isUnit]
  | file name path content => simp [ownStep?, Node.isUnit, and_comm, and_assoc]

theorem mem_stepsOfAll {step : Step α} {nodes : List (Node α)} (h : Apart nodes) :
    step ∈ stepsOfAll [] nodes ↔ ∃ node ∈ atPlace step.place nodes, ownStep? step.place node = some step := by
  have hp := filter_place_stepsOfAll [] step.place h
  rw [List.nil_append] at hp
  rw [← List.mem_filterMap, ← hp, List.mem_filter]
  simp

/-- A walk comes to the directories in which something stands. -/
theorem directory_mem_stepsOfAll {p : List String} {x : String} {nodes : List (Node α)} (h : Apart nodes) :
    .directory p x ∈ stepsOfAll [] nodes ↔ atPlace (p ++ [x]) nodes ≠ [] := by
  rw [mem_stepsOfAll h, Node.atPlace_append]
  refine Iff.trans ?_ (Node.childrenOf_ne_nil_iff (h p)).symm
  simp only [Step.place, ownStep?_eq_directory_iff, true_and]
  constructor
  · intro h
    obtain ⟨node, hm, path, children, rfl, hc⟩ := h
    exact ⟨path, children, hm, hc⟩
  · intro h
    obtain ⟨path, children, hm, hc⟩ := h
    exact ⟨_, hm, path, children, rfl, hc⟩

/-- A walk comes to the units among the files. -/
theorem unit_mem_stepsOfAll {p : List String} {node : Node α} {nodes : List (Node α)} (h : Apart nodes) :
    .unit p node ∈ stepsOfAll [] nodes ↔ node ∈ files (atPlace p nodes) ∧ node.isUnit = true := by
  have hf : node.isUnit = true → node.isDirectory = false := by cases node <;> simp [Node.isUnit, Node.isDirectory]
  rw [mem_stepsOfAll h]
  simp only [Step.place, ownStep?_eq_unit_iff, true_and, files, List.mem_filter, Bool.not_eq_true']
  constructor
  · intro h
    obtain ⟨_, hm, rfl, hu⟩ := h
    exact ⟨⟨hm, hf hu⟩, hu⟩
  · intro h
    obtain ⟨⟨hm, -⟩, hu⟩ := h
    exact ⟨node, hm, rfl, hu⟩

/-! ## Parents come first -/

/-- Every step comes after the steps to the directories on the way from `place` to it. -/
def ParentsFirst (place : List String) (row : List (Step α)) : Prop :=
  ∀ front step back, row = front ++ step :: back →
    ∀ q x, place ++ q ++ [x] <+: step.place → .directory (place ++ q) x ∈ front

theorem ParentsFirst.append {place : List String} {row row' : List (Step α)} (h : ParentsFirst place row)
    (h' : ParentsFirst place row') : ParentsFirst place (row ++ row') := by
  intro front step back e q x hx
  rcases List.append_eq_append_iff.mp e with ⟨middle, rfl, e'⟩ | ⟨middle, e', hb⟩
  · exact List.mem_append_right _ (h' middle step back e' q x hx)
  · cases middle with
    | nil =>
      rw [List.append_nil] at e'
      subst e'
      exact absurd (h' [] step back hb.symm q x hx) List.not_mem_nil
    | cons first middle =>
      obtain ⟨rfl, -⟩ := List.cons.inj hb
      exact h front step middle e' q x hx

mutual

theorem parentsFirst_stepsOf (place : List String) (node : Node α) : ParentsFirst place (stepsOf place node) := by
  have hself : ∀ q x, ¬place ++ q ++ [x] <+: place := fun q x h => by
    have := h.length_le
    simp only [List.length_append, List.length_singleton] at this
    omega
  cases node with
  | file name path content =>
    rw [stepsOf]
    intro front step back e q x hx
    split at e
    · have hm : step ∈ front ++ step :: back := List.mem_append_right _ List.mem_cons_self
      rw [← e, List.mem_singleton] at hm
      rw [hm] at hx
      exact absurd hx (hself q x)
    · simp at e
  | directory name path children =>
    rw [stepsOf]
    intro front step back e q x hx
    split at e
    · simp at e
    · cases front with
      | nil =>
        obtain ⟨rfl, -⟩ := List.cons.inj e
        exact absurd hx (hself q x)
      | cons first front =>
        obtain ⟨rfl, hrow⟩ := List.cons.inj e
        have hm : step ∈ stepsOfAll (place ++ [name]) children :=
          hrow.symm ▸ List.mem_append_right front List.mem_cons_self
        have hname : place ++ [name] <+: step.place := prefix_place_of_mem_stepsOfAll hm
        cases q with
        | nil =>
          -- the directory itself is the parent
          rw [List.append_nil] at hx ⊢
          rw [concat_prefix_concat hx hname]
          exact List.mem_cons_self
        | cons y q =>
          have hy : y = name := by
            refine concat_prefix_concat (List.IsPrefix.trans ?_ hx) hname
            exact ⟨q ++ [x], by simp⟩
          have hp : place ++ y :: q = place ++ [name] ++ q := by simp [hy]
          rw [hp] at hx ⊢
          refine List.mem_cons_of_mem _ ?_
          exact parentsFirst_stepsOfAll (place ++ [name]) children front step back hrow q x hx

/-- A walk comes to a directory before it comes to anything below it. -/
theorem parentsFirst_stepsOfAll (place : List String) (nodes : List (Node α)) :
    ParentsFirst place (stepsOfAll place nodes) := by
  cases nodes with
  | nil => intro front step back e; simp [stepsOfAll] at e
  | cons node rest =>
    rw [stepsOfAll]
    exact (parentsFirst_stepsOf place node).append (parentsFirst_stepsOfAll place rest)

end

end SourceJar.Traversal
