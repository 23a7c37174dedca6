import SourceJar.Proofs.EntryNames
import SourceJar.Traversal

/-!
A traversal as a list of steps.

The steps of a tree are the directories that are not empty and the units, in the order in which a
depth-first walk comes to them. A step knows its place, the names of the directories on the way to it.
Taking the steps one after another until one fails is the same as walking the tree, so what a run does
is proved by induction on a list.

- `visitAll_eq_performAll`: walking the children of a directory is taking their steps in order.
- `run_eq_performAll`: a run over a tree that is not empty takes the steps of the tree.
- `units_steps`: the units among the steps are the units of the tree.
-/

namespace SourceJar

open Archive
open Archive.EntryName (directoryPath)

namespace Traversal

variable {σ α : Type}

/-- What a walk comes to in the directory at `place`: a directory that is not empty, or a unit. -/
inductive Step (α : Type) where
  | directory (place : List String) (name : String)
  | unit (place : List String) (node : Node α)

/-- The unit that a step comes to. -/
def Step.unit? : Step α → Option (Node α)
  | .directory .. => none
  | .unit _ node => some node

mutual

/-- The steps of one child of the directory at `place`. -/
def stepsOf (place : List String) : Node α → List (Step α)
  | .directory name _ children =>
    if children.isEmpty then []
    else .directory place name :: stepsOfAll (place ++ [name]) children
  | .file name path content => if Node.isUnitName name then [.unit place (.file name path content)] else []

/-- The steps of the children of the directory at `place`. -/
def stepsOfAll (place : List String) : List (Node α) → List (Step α)
  | [] => []
  | node :: rest => stepsOf place node ++ stepsOfAll place rest

end

/-- The steps of a tree. -/
def steps (root : Node α) : List (Step α) := stepsOfAll [] root.children

/-- Takes one step. -/
def perform (h : Host σ α) : Step α → Traversal σ → Except Failure Unit × Traversal σ
  | .directory place name, t => addDirectory (directoryPath (place ++ [name])) t
  | .unit place node, t => visitUnit h (directoryPath place) node t

/-- Takes steps one after another until one fails. -/
def performAll (h : Host σ α) : List (Step α) → Traversal σ → Except Failure Unit × Traversal σ
  | [], t => (.ok (), t)
  | step :: rest, t =>
    match perform h step t with
    | (.ok (), t) => performAll h rest t
    | (.error e, t) => (.error e, t)

/-! ## Walking is taking steps -/

theorem performAll_append (h : Host σ α) (front back : List (Step α)) (t : Traversal σ) :
    performAll h (front ++ back) t =
      match performAll h front t with
      | (.ok (), t) => performAll h back t
      | (.error e, t) => (.error e, t) := by
  induction front generalizing t with
  | nil => rfl
  | cons step rest ih =>
    simp only [List.cons_append, performAll]
    rcases perform h step t with ⟨_ | _, after⟩
    · rfl
    · exact ih after

mutual

theorem visit_eq_performAll (h : Host σ α) (place : List String) (node : Node α) (t : Traversal σ) :
    visit h (directoryPath place) node t = performAll h (stepsOf place node) t := by
  cases node with
  | directory name path children =>
    simp only [visit, stepsOf]
    split
    · rfl
    · simp only [performAll, perform, ← EntryName.directoryPath_concat]
      rcases addDirectory (directoryPath (place ++ [name])) t with ⟨_ | _, after⟩
      · rfl
      · exact visitAll_eq_performAll h (place ++ [name]) children after
  | file name path content =>
    simp only [visit, stepsOf]
    split
    · simp only [performAll, perform]
      rcases visitUnit h (directoryPath place) (.file name path content) t with ⟨_ | _, after⟩ <;> rfl
    · rfl

/-- Walking the children of a directory is taking their steps in order. -/
theorem visitAll_eq_performAll (h : Host σ α) (place : List String) (nodes : List (Node α))
    (t : Traversal σ) :
    visitAll h (directoryPath place) nodes t = performAll h (stepsOfAll place nodes) t := by
  cases nodes with
  | nil => simp only [visitAll, stepsOfAll, performAll]
  | cons node rest =>
    simp only [visitAll, stepsOfAll, performAll_append, visit_eq_performAll h place node t]
    rcases performAll h (stepsOf place node) t with ⟨_ | _, after⟩
    · rfl
    · exact visitAll_eq_performAll h place rest after

end

/-- A run over a tree that is not empty takes the steps of the tree. -/
theorem run_eq_performAll (h : Host σ α) {root : Node α} (hr : root.children ≠ []) (t : Traversal σ) :
    run h root t = performAll h (steps root) t := by
  simp only [run, List.isEmpty_iff, hr, if_false]
  exact visitAll_eq_performAll h [] root.children t

/-! ## The units among the steps -/

mutual

theorem units_stepsOf (place : List String) (node : Node α) :
    (stepsOf place node).filterMap Step.unit? = Node.unitsOfAll [node] := by
  cases node with
  | directory name path children =>
    simp only [stepsOf, Node.unitsOfAll, Node.units, List.append_nil]
    split
    · rename_i hc; simp [List.isEmpty_iff.mp hc, Node.unitsOfAll]
    · rw [List.filterMap_cons_none rfl]
      exact units_stepsOfAll (place ++ [name]) children
  | file name path content =>
    simp only [stepsOf, Node.unitsOfAll, List.append_nil]
    split <;> simp [Step.unit?]

theorem units_stepsOfAll (place : List String) (nodes : List (Node α)) :
    (stepsOfAll place nodes).filterMap Step.unit? = Node.unitsOfAll nodes := by
  cases nodes with
  | nil => simp [stepsOfAll, Node.unitsOfAll]
  | cons node rest =>
    rw [stepsOfAll, List.filterMap_append, units_stepsOf place node, units_stepsOfAll place rest]
    cases node <;> simp [Node.unitsOfAll]

end

/-- The units among the steps are the units of the tree. -/
theorem units_steps (root : Node α) : (steps root).filterMap Step.unit? = root.units := by
  cases root with
  | directory name path children => simpa [steps, Node.children, Node.units] using units_stepsOfAll [] children
  | file name path content => simp [steps, Node.children, Node.units, stepsOfAll]

end Traversal

end SourceJar
