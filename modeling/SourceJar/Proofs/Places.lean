import SourceJar.Proofs.EntryNames

/-!
Places in a tree.

An entry is added to a tree by its names alone: each leads to the first directory of that name, which is made
at the end if there is none (`insert`).

A place is a list of directory names. `atPlace p nodes` is what stands at place `p`: each name leads to the
first directory of that name, and an entry that is added reaches the same one, so the tree of an archive is
known place by place. Siblings never share a directory name (`Apart`), so nothing is hidden behind a first
directory.

- `atPlace_insert_append`, `atPlace_insert_other`: an entry is added at each place above its own, and
  changes no other.
- `atPlace_insertAll_ne_nil`, `files_atPlace_insertAll`: what stands at a place of the tree of some entries.
-/

namespace SourceJar

open Archive
open Archive.EntryName (directoryPath segments)

variable {α : Type}

namespace Node

/-! ## Growing a tree -/

/-- Changes the children of the first directory of the given name, which is made at the end if there
is none. -/
def alterDirectory (name path : String) (change : List (Node α) → List (Node α)) :
    List (Node α) → List (Node α)
  | [] => [.directory name path (change [])]
  | .directory other otherPath children :: rest =>
    if other = name then .directory other otherPath (change children) :: rest
    else .directory other otherPath children :: alterDirectory name path change rest
  | leaf :: rest => leaf :: alterDirectory name path change rest

/-- Adds an entry to the children of the directory at `path`: a file with the content at the end of
the segments, or only the directories along them. Directories are shared by name, files never. -/
def insert (path : String) : (segments : List String) → (isDirectory : Bool) → α →
    List (Node α) → List (Node α)
  | [], _, _, children => children
  | first :: rest, isDirectory, content, children =>
    if rest.isEmpty && !isDirectory then children ++ [.file first (path ++ first) content]
    else
      alterDirectory first (path ++ first ++ "/")
        (insert (path ++ first ++ "/") rest isDirectory content) children

/-! ## What stands at a place -/

/-- The children of the first directory of the given name. -/
def childrenOf (name : String) : List (Node α) → List (Node α)
  | [] => []
  | .directory other _ children :: rest => if other = name then children else childrenOf name rest
  | .file .. :: rest => childrenOf name rest

/-- The nodes at a place. -/
def atPlace : List String → List (Node α) → List (Node α)
  | [], nodes => nodes
  | name :: rest, nodes => atPlace rest (childrenOf name nodes)

/-- The names of the directories among some nodes. -/
def directoryNames (nodes : List (Node α)) : List String :=
  (nodes.filter isDirectory).map name

/-- The files among some nodes. -/
def files (nodes : List (Node α)) : List (Node α) := nodes.filter fun node => !node.isDirectory

/-- At every place, no two directories share a name. -/
def Apart (nodes : List (Node α)) : Prop := ∀ p, (directoryNames (atPlace p nodes)).Nodup

section cons

variable (name path : String) (children rest : List (Node α)) (content : α)

@[simp] theorem directoryNames_directory :
    directoryNames (.directory name path children :: rest) = name :: directoryNames rest := rfl

@[simp] theorem directoryNames_file : directoryNames (.file name path content :: rest) = directoryNames rest := rfl

@[simp] theorem files_directory : files (.directory name path children :: rest) = files rest := rfl

@[simp] theorem files_file :
    files (.file name path content :: rest) = .file name path content :: files rest := rfl

end cons

@[simp] theorem atPlace_nil (p : List String) : atPlace p ([] : List (Node α)) = [] := by
  induction p with
  | nil => rfl
  | cons name rest ih => exact ih

theorem apart_nil : Apart ([] : List (Node α)) := by
  intro p
  rw [atPlace_nil]
  exact List.nodup_nil

theorem atPlace_append (p q : List String) (nodes : List (Node α)) :
    atPlace (p ++ q) nodes = atPlace q (atPlace p nodes) := by
  induction p generalizing nodes with
  | nil => rfl
  | cons name rest ih => exact ih _

theorem Apart.atPlace {nodes : List (Node α)} (h : Apart nodes) (p : List String) : Apart (atPlace p nodes) := by
  intro q
  rw [← atPlace_append]
  exact h (p ++ q)

theorem childrenOf_eq_nil {name : String} {nodes : List (Node α)} (h : name ∉ directoryNames nodes) :
    childrenOf name nodes = [] := by
  induction nodes with
  | nil => rfl
  | cons node rest ih =>
    cases node with
    | directory other path children =>
      rw [directoryNames_directory, List.mem_cons, not_or] at h
      rw [childrenOf, if_neg (Ne.symm h.1)]
      exact ih h.2
    | file other path content => exact ih h

theorem childrenOf_ne_nil_iff {x : String} {nodes : List (Node α)} (hn : (directoryNames nodes).Nodup) :
    childrenOf x nodes ≠ [] ↔ ∃ path children, .directory x path children ∈ nodes ∧ children ≠ [] := by
  induction nodes with
  | nil => simp [childrenOf]
  | cons node rest ih =>
    cases node with
    | file name path content => simpa [childrenOf] using ih hn
    | directory name path children =>
      rw [directoryNames_directory, List.nodup_cons] at hn
      have hr := ih hn.2
      by_cases hx : name = x
      · -- no later directory has the name, so this one decides
        rw [childrenOf_eq_nil (hx ▸ hn.1)] at hr
        simp only [ne_eq, not_true_eq_false, false_iff] at hr
        simp only [childrenOf, hx, if_true]
        constructor
        · intro h
          exact ⟨path, children, List.mem_cons_self, h⟩
        · intro h
          obtain ⟨path', children', hm, h⟩ := h
          rcases List.mem_cons.mp hm with e | hm
          · cases e; exact h
          · exact absurd ⟨path', children', hm, h⟩ hr
      · simp [childrenOf, hx, hr, Ne.symm hx]

/-! ## Changing a directory -/

section alterDirectory

variable (name path : String) (change : List (Node α) → List (Node α)) (nodes : List (Node α))

theorem childrenOf_alterDirectory_self :
    childrenOf name (alterDirectory name path change nodes) = change (childrenOf name nodes) := by
  induction nodes with
  | nil => simp [alterDirectory, childrenOf]
  | cons node rest ih =>
    cases node with
    | directory other otherPath children =>
      by_cases h : other = name <;> simp [alterDirectory, childrenOf, h, ih]
    | file other otherPath content => exact ih

theorem childrenOf_alterDirectory_other {other : String} (h : other ≠ name) :
    childrenOf other (alterDirectory name path change nodes) = childrenOf other nodes := by
  induction nodes with
  | nil => simp [alterDirectory, childrenOf, h.symm]
  | cons node rest ih =>
    cases node with
    | directory first firstPath children =>
      by_cases hf : first = name
      · simp [alterDirectory, childrenOf, hf, h.symm]
      · simp only [alterDirectory, hf, if_false, childrenOf, ih]
    | file first firstPath content => exact ih

theorem files_alterDirectory : files (alterDirectory name path change nodes) = files nodes := by
  induction nodes with
  | nil => rfl
  | cons node rest ih =>
    cases node with
    | directory other otherPath children =>
      by_cases h : other = name <;> simp [alterDirectory, h, ih]
    | file other otherPath content => exact congrArg (_ :: ·) ih

theorem directoryNames_alterDirectory :
    directoryNames (alterDirectory name path change nodes) =
      if name ∈ directoryNames nodes then directoryNames nodes else directoryNames nodes ++ [name] := by
  induction nodes with
  | nil => rfl
  | cons node rest ih =>
    cases node with
    | directory other otherPath children =>
      by_cases h : other = name
      · simp [alterDirectory, h]
      · simp only [alterDirectory, h, if_false, directoryNames_directory, ih, List.mem_cons, Ne.symm h, false_or]
        split <;> rfl
    | file other otherPath content => exact ih

theorem alterDirectory_ne_nil : alterDirectory name path change nodes ≠ [] := by
  cases nodes with
  | nil => simp [alterDirectory]
  | cons node rest =>
    cases node with
    | directory other otherPath children => by_cases h : other = name <;> simp [alterDirectory, h]
    | file other otherPath content => simp [alterDirectory]

end alterDirectory

/-! ## Adding an entry -/

section insert

variable {path : String} {isDirectory : Bool} {content : α} {nodes : List (Node α)}

theorem insert_cons (first : String) (rest : List String) :
    insert path (first :: rest) isDirectory content nodes =
      if rest = [] ∧ isDirectory = false then nodes ++ [.file first (path ++ first) content]
      else alterDirectory first (path ++ first ++ "/")
        (insert (path ++ first ++ "/") rest isDirectory content) nodes := by
  rw [insert]
  cases isDirectory <;> simp

theorem childrenOf_append_file (name first firstPath : String) :
    childrenOf name (nodes ++ [.file first firstPath content]) = childrenOf name nodes := by
  induction nodes with
  | nil => rfl
  | cons node rest ih =>
    cases node with
    | directory other otherPath children => simp only [List.cons_append, childrenOf, ih]
    | file other otherPath content => exact ih

/-- At a place above its own, an entry is added by the names that are left. -/
theorem atPlace_insert_append (p : List String) {rest : List String} (hr : rest ≠ []) :
    atPlace p (insert path (p ++ rest) isDirectory content nodes) =
      insert (path ++ directoryPath p) rest isDirectory content (atPlace p nodes) := by
  induction p generalizing path nodes with
  | nil => simp [atPlace, directoryPath]
  | cons name p ih =>
    have hne : ¬(p ++ rest = [] ∧ isDirectory = false) := fun h => hr (List.append_eq_nil_iff.mp h.1).2
    rw [List.cons_append, insert_cons, if_neg hne, atPlace, childrenOf_alterDirectory_self, ih, directoryPath]
    simp only [atPlace, String.append_assoc]

/-- An entry changes nothing at a place that is not above its own. -/
theorem atPlace_insert_other {p names : List String} (h : ∀ rest, rest ≠ [] → names ≠ p ++ rest) :
    atPlace p (insert path names isDirectory content nodes) = atPlace p nodes := by
  induction p generalizing path names nodes with
  | nil =>
    have : names = [] := Classical.byContradiction fun hn => h names hn rfl
    rw [this]; rfl
  | cons name p ih =>
    cases names with
    | nil => rfl
    | cons first names =>
      rw [insert_cons]
      simp only [atPlace]
      split
      · rw [childrenOf_append_file]
      · by_cases hf : first = name
        · rw [← hf, childrenOf_alterDirectory_self]
          refine ih fun rest hr e => h rest hr ?_
          rw [hf, e, List.cons_append]
        · rw [childrenOf_alterDirectory_other _ _ _ _ (Ne.symm hf)]

theorem insert_ne_nil {names : List String} (hn : names ≠ []) :
    insert path names isDirectory content nodes ≠ [] := by
  obtain ⟨first, rest, rfl⟩ := List.exists_cons_of_ne_nil hn
  rw [insert_cons]
  split
  · simp
  · exact alterDirectory_ne_nil _ _ _ _

/-- An entry whose names are used up but for one is a file here, unless it is a directory. -/
theorem files_insert {names : List String} (hn : names ≠ []) :
    files (insert path names isDirectory content nodes) = files nodes ++
      if names.length = 1 ∧ isDirectory = false then
        [.file (names.getLast hn) (path ++ names.getLast hn) content] else [] := by
  obtain ⟨first, rest, rfl⟩ := List.exists_cons_of_ne_nil hn
  rw [insert_cons]
  by_cases h : rest = [] ∧ isDirectory = false
  · obtain ⟨rfl, hd⟩ := h
    simp [hd, files, Node.isDirectory]
  · have hl : ¬((first :: rest).length = 1 ∧ isDirectory = false) := by simpa using h
    rw [if_neg h, if_neg hl, files_alterDirectory, List.append_nil]

theorem nodup_directoryNames_insert {names : List String} (h : (directoryNames nodes).Nodup) :
    (directoryNames (insert path names isDirectory content nodes)).Nodup := by
  cases names with
  | nil => exact h
  | cons first rest =>
    rw [insert_cons]
    split
    · simpa [directoryNames, Node.isDirectory] using h
    · rw [directoryNames_alterDirectory]
      split
      · exact h
      · rename_i hm
        exact List.nodup_append.mpr ⟨h, by simp, fun a ha b hb e => hm (List.mem_singleton.mp hb ▸ e ▸ ha)⟩

theorem Apart.insert {names : List String} (h : Apart nodes) :
    Apart (insert path names isDirectory content nodes) := by
  intro p
  by_cases hp : ∃ rest, rest ≠ [] ∧ names = p ++ rest
  · obtain ⟨rest, hr, rfl⟩ := hp
    rw [atPlace_insert_append p hr]
    exact nodup_directoryNames_insert (h p)
  · rw [atPlace_insert_other fun rest hr e => hp ⟨rest, hr, e⟩]
    exact h p

end insert

/-! ## The tree of some entries -/

/-- Adds named entries one after another to the children of the directory at `path`. -/
def insertAll (path : String) (entries : List (String × α)) (nodes : List (Node α)) : List (Node α) :=
  entries.foldl (fun nodes (name, content) =>
    insert path (segments name) (EntryName.isDirectory name) content nodes) nodes

/-- The file that an entry puts at a place, if it puts one there. -/
def fileAt? (path : String) (p : List String) (e : String × α) : Option (Node α) :=
  match (segments e.1).getLast? with
  | some last =>
    if EntryName.isDirectory e.1 = false ∧ segments e.1 = p ++ [last] then
      some (.file last (path ++ directoryPath p ++ last) e.2)
    else none
  | none => none

theorem fileAt?_eq_some_iff {path : String} {p : List String} {e : String × α} {node : Node α} :
    fileAt? path p e = some node ↔ EntryName.isDirectory e.1 = false ∧ ∃ last, segments e.1 = p ++ [last] ∧
      node = .file last (path ++ directoryPath p ++ last) e.2 := by
  unfold fileAt?
  constructor
  · intro h
    split at h
    · split at h
      · rename_i last _ hs
        exact ⟨hs.1, last, hs.2, (Option.some.inj h).symm⟩
      · cases h
    · cases h
  · intro h
    obtain ⟨hd, last, hs, rfl⟩ := h
    simp [hd, hs]

theorem files_atPlace_insert (path : String) (p : List String) (e : String × α) (nodes : List (Node α)) :
    files (atPlace p (insert path (segments e.1) (EntryName.isDirectory e.1) e.2 nodes)) =
      files (atPlace p nodes) ++ (fileAt? path p e).toList := by
  by_cases hp : ∃ rest, rest ≠ [] ∧ segments e.1 = p ++ rest
  · obtain ⟨rest, hr, hs⟩ := hp
    rw [hs, atPlace_insert_append p hr, files_insert hr]
    congr 1
    split
    · rename_i h
      obtain ⟨last, rfl⟩ := List.length_eq_one_iff.mp h.1
      rw [fileAt?_eq_some_iff.mpr ⟨h.2, last, hs, rfl⟩]
      rfl
    · rename_i h
      rcases hf : fileAt? path p e with _ | node
      · rfl
      · obtain ⟨hd, last, hl, -⟩ := fileAt?_eq_some_iff.mp hf
        have : rest = [last] := List.append_cancel_left (hs.symm.trans hl)
        exact absurd ⟨by rw [this]; rfl, hd⟩ h
  · rw [atPlace_insert_other fun rest hr e => hp ⟨rest, hr, e⟩]
    rcases hf : fileAt? path p e with _ | node
    · simp
    · obtain ⟨-, last, hl, -⟩ := fileAt?_eq_some_iff.mp hf
      exact absurd ⟨[last], by simp, hl⟩ hp

theorem atPlace_insert_ne_nil (path : String) (p : List String) (e : String × α) (nodes : List (Node α)) :
    atPlace p (insert path (segments e.1) (EntryName.isDirectory e.1) e.2 nodes) ≠ [] ↔
      atPlace p nodes ≠ [] ∨ ∃ rest, rest ≠ [] ∧ segments e.1 = p ++ rest := by
  by_cases hp : ∃ rest, rest ≠ [] ∧ segments e.1 = p ++ rest
  · obtain ⟨rest, hr, hs⟩ := hp
    rw [hs, atPlace_insert_append p hr]
    exact ⟨fun _ => Or.inr ⟨rest, hr, rfl⟩, fun _ => insert_ne_nil hr⟩
  · rw [atPlace_insert_other fun rest hr e => hp ⟨rest, hr, e⟩]
    exact ⟨Or.inl, fun h => h.resolve_right hp⟩

theorem apart_insertAll (path : String) (entries : List (String × α)) {nodes : List (Node α)}
    (h : Apart nodes) : Apart (insertAll path entries nodes) := by
  induction entries generalizing nodes with
  | nil => exact h
  | cons e rest ih => exact ih h.insert

/-- A place holds something exactly when an entry goes past it. -/
theorem atPlace_insertAll_ne_nil (path : String) (p : List String) (entries : List (String × α))
    (nodes : List (Node α)) :
    atPlace p (insertAll path entries nodes) ≠ [] ↔
      atPlace p nodes ≠ [] ∨ ∃ e ∈ entries, ∃ rest, rest ≠ [] ∧ segments e.1 = p ++ rest := by
  induction entries generalizing nodes with
  | nil => simp [insertAll]
  | cons e rest ih =>
    refine (ih _).trans ?_
    simp only [atPlace_insert_ne_nil, List.mem_cons, or_and_right, exists_or, exists_eq_left, or_assoc]

/-- The files at a place are those that the entries put there, in their order. -/
theorem files_atPlace_insertAll (path : String) (p : List String) (entries : List (String × α))
    (nodes : List (Node α)) :
    files (atPlace p (insertAll path entries nodes)) =
      files (atPlace p nodes) ++ entries.filterMap (fileAt? path p) := by
  induction entries generalizing nodes with
  | nil => simp [insertAll]
  | cons e rest ih =>
    refine (ih _).trans ?_
    rw [files_atPlace_insert, List.append_assoc, List.filterMap_cons]
    rcases fileAt? path p e with _ | node <;> rfl

end Node

end SourceJar
