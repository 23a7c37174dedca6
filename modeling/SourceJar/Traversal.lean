import SourceJar.Archive.Draft
import SourceJar.Archive.Tree

/-!
Turning the classes of an archive into the sources of another.

A traversal walks the tree depth first. It adds a directory to the draft before the directory's
children, unless the directory is empty, and hands each unit to a backend: a text becomes a file next
to where the class was, with the extension `java`, and a refusal only adds the unit's name to the names
that failed. Before each unit it asks whether to stop, and after each unit it reports the unit.

The backend, the question and the report share a state of any type, which the traversal only passes
on.
-/

namespace SourceJar

open Archive

/-- The surroundings of a traversal, over a state of type `σ` and contents of type `α`. -/
structure Host (σ α : Type) where
  /-- Whether the traversal is asked to stop. -/
  stops : σ → Bool
  /-- Turns a unit into source text. -/
  decompile : Node α → σ → Except UnitFailure String × σ
  /-- Hears of a unit that is done with. -/
  report : Node α → σ → σ

/-- How far a traversal has come. -/
structure Traversal (σ : Type) where
  state : σ
  draft : Draft := {}
  failed : List String := []

namespace Traversal

variable {σ α : Type}

/-- The extension of source files. -/
def sourceExtension : String := "java"

/-- A name in an ordered list of names, unless it is there. -/
def insertName (name : String) : List String → List String
  | [] => [name]
  | other :: rest =>
    if name < other then name :: other :: rest
    else if name = other then other :: rest
    else other :: insertName name rest

/-- Adds a directory to the draft. -/
def addDirectory (path : String) (t : Traversal σ) : Except Failure Unit × Traversal σ :=
  match t.draft.addDirectory path with
  | (draft, .ok _) => (.ok (), { t with draft })
  | (draft, .error e) => (.error e, { t with draft })

/-- Adds a file to the draft. -/
def addFile (path text : String) (t : Traversal σ) : Except Failure Unit × Traversal σ :=
  match t.draft.addFile path text with
  | (draft, .ok _) => (.ok (), { t with draft })
  | (draft, .error e) => (.error e, { t with draft })

/-- Visits a unit of the directory at `base`. -/
def visitUnit (h : Host σ α) (base : String) (unit : Node α) (t : Traversal σ) :
    Except Failure Unit × Traversal σ :=
  if h.stops t.state then (.error .cancelled, t)
  else
    match h.decompile unit t.state with
    | (.ok text, state) =>
      match addFile (base ++ unit.baseName ++ "." ++ sourceExtension) text { t with state } with
      | (.ok (), t) => (.ok (), { t with state := h.report unit t.state })
      | (.error e, t) => (.error e, t)
    | (.error _, state) =>
      (.ok (), { t with
        state := h.report unit state
        failed := insertName unit.name t.failed })

mutual

/-- Visits one child of the directory at `base`. -/
def visit (h : Host σ α) (base : String) (node : Node α) (t : Traversal σ) :
    Except Failure Unit × Traversal σ :=
  match node with
  | .directory name _ children =>
    if children.isEmpty then (.ok (), t)
    else
      match addDirectory (base ++ name ++ "/") t with
      | (.ok (), t) => visitAll h (base ++ name ++ "/") children t
      | (.error e, t) => (.error e, t)
  | .file name path content =>
    if Node.isUnitName name then visitUnit h base (.file name path content) t else (.ok (), t)

/-- Visits the children of the directory at `base` in order. -/
def visitAll (h : Host σ α) (base : String) (nodes : List (Node α)) (t : Traversal σ) :
    Except Failure Unit × Traversal σ :=
  match nodes with
  | [] => (.ok (), t)
  | node :: rest =>
    match visit h base node t with
    | (.ok (), t) => visitAll h base rest t
    | (.error e, t) => (.error e, t)

end

/-- Traverses the tree of an archive, which must not be empty. -/
def run (h : Host σ α) (root : Node α) (t : Traversal σ) : Except Failure Unit × Traversal σ :=
  if root.children.isEmpty then (.error (.emptyArchive root.name), t)
  else visitAll h "" root.children t

end Traversal

end SourceJar
