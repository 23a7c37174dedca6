import Mathlib
import SourceJar.Proofs.TreeGrowth
import SourceJar.Proofs.Walks

/-!
The tree of an archive is the directory tree of its entries.

The position of a node is the row of names on the way to it from the root. Position by position, a tree whose
siblings share no directory name is what stands at its places (`mem_locatedAll`), so what one entry adds is seen
at each place: a leaf at the end of its names (`leavesOfAll_insert`), the next name on the way at every place
above (`mentions_insert`), and paths that spell the positions (`Spelled`).

- `leavesOfAll_insertAll`: the leaves are the entries that are files.
- `mentions_insertAll`: the children of a directory are what the entries mention there, in order.
- `buildTree_located`: the whole tree.
-/

namespace SourceJar

open Archive
open Archive.EntryName (directoryPath segments)

variable {α : Type}

namespace Node

/-! ## Positions -/

mutual

/-- A node at a position and all nodes below it with theirs, in depth-first order. -/
def located (position : List String) : Node α → List (List String × Node α)
  | .directory name path children => (position, .directory name path children) :: locatedAll position children
  | .file name path content => [(position, .file name path content)]

/-- The children of the directory at a position and all nodes below them. -/
def locatedAll (position : List String) : List (Node α) → List (List String × Node α)
  | [] => []
  | node :: rest => located (position ++ [node.name]) node ++ locatedAll position rest

end

/-- The position and the content of a file. -/
def leaf? : List String × Node α → Option (List String × α)
  | (position, .file _ _ content) => some (position, content)
  | (_, .directory ..) => none

/-- The position of a directory. -/
def directory? : List String × Node α → Option (List String)
  | (position, .directory ..) => some position
  | (_, .file ..) => none

theorem self_mem_located (position : List String) (node : Node α) : (position, node) ∈ located position node := by
  cases node with
  | directory name path children => exact List.mem_cons_self
  | file name path content => exact List.mem_cons_self

theorem Apart.notMem {name path : String} {children rest : List (Node α)}
    (h : Apart (.directory name path children :: rest)) : name ∉ directoryNames rest :=
  (List.nodup_cons.mp (h [])).1

/-- Below a name stands what is below the first node, if it is the directory of that name, or below the others. -/
theorem mem_atPlace_cons {node other : Node α} {rest : List (Node α)} (h : Apart (node :: rest)) (x : String)
    (p : List String) : other ∈ atPlace (x :: p) (node :: rest) ↔
      (x = node.name ∧ other ∈ atPlace p node.children) ∨ other ∈ atPlace (x :: p) rest := by
  cases node with
  | file name path content => simp [atPlace, childrenOf, Node.children]
  | directory name path children =>
    by_cases hx : name = x
    · subst hx
      simp [atPlace, childrenOf, Node.name, Node.children, childrenOf_eq_nil h.notMem]
    · simp [atPlace, childrenOf, Node.name, hx, Ne.symm hx]

theorem Apart.tail {node : Node α} {rest : List (Node α)} (h : Apart (node :: rest)) : Apart rest := by
  intro p
  cases p with
  | nil =>
    cases node with
    | directory name path children => exact (List.nodup_cons.mp (h [])).2
    | file name path content => exact h []
  | cons x p =>
    have hp := h (x :: p)
    cases node with
    | file name path content => exact hp
    | directory name path children =>
      by_cases hx : name = x
      · rw [Node.atPlace, childrenOf_eq_nil (hx ▸ h.notMem), atPlace_nil]
        exact List.nodup_nil
      · rwa [Node.atPlace, childrenOf, if_neg hx] at hp

theorem Apart.head {node : Node α} {rest : List (Node α)} (h : Apart (node :: rest)) : Apart node.children := by
  cases node with
  | file name path content => exact apart_nil
  | directory name path children => simpa [Node.atPlace, childrenOf, Node.children] using h.atPlace [name]

mutual

theorem mem_located {position q : List String} {node other : Node α} (h : Apart node.children) :
    (q, other) ∈ located position node ↔ (q = position ∧ other = node) ∨
      ∃ p, q = position ++ p ++ [other.name] ∧ other ∈ atPlace p node.children := by
  cases node with
  | file name path content => simp [located, children]
  | directory name path children =>
    have hc : Apart children := h
    simp only [located, List.mem_cons, Prod.mk.injEq, mem_locatedAll hc, Node.children]

/-- A node stands at its name below the place above it. -/
theorem mem_locatedAll {position q : List String} {nodes : List (Node α)} {other : Node α} (h : Apart nodes) :
    (q, other) ∈ locatedAll position nodes ↔ ∃ p, q = position ++ p ++ [other.name] ∧ other ∈ atPlace p nodes := by
  cases nodes with
  | nil => simp [locatedAll]
  | cons node rest =>
    rw [locatedAll, List.mem_append, mem_located h.head, mem_locatedAll h.tail]
    constructor
    · intro hm
      rcases hm with (⟨rfl, rfl⟩ | ⟨p, rfl, hp⟩) | ⟨p, rfl, hp⟩
      · exact ⟨[], by simp, List.mem_cons_self⟩
      · exact ⟨node.name :: p, by simp, (mem_atPlace_cons h _ p).mpr (.inl ⟨rfl, hp⟩)⟩
      · cases p with
        | nil => exact ⟨[], rfl, List.mem_cons_of_mem _ hp⟩
        | cons x p => exact ⟨x :: p, rfl, (mem_atPlace_cons h x p).mpr (.inr hp)⟩
    · intro hm
      obtain ⟨p, rfl, hp⟩ := hm
      cases p with
      | nil =>
        rcases List.mem_cons.mp hp with rfl | hp
        · exact .inl (.inl ⟨by simp, rfl⟩)
        · exact .inr ⟨[], rfl, hp⟩
      | cons x p =>
        rcases (mem_atPlace_cons h x p).mp hp with ⟨rfl, hc⟩ | hr
        · exact .inl (.inr ⟨p, by simp, hc⟩)
        · exact .inr ⟨x :: p, rfl, hr⟩

end

/-! ## Directories -/

theorem mem_directoryNames {name : String} {nodes : List (Node α)} :
    name ∈ directoryNames nodes ↔ ∃ path children, .directory name path children ∈ nodes := by
  simp only [directoryNames, List.mem_map, List.mem_filter]
  constructor
  · intro h
    obtain ⟨node, ⟨hm, hd⟩, rfl⟩ := h
    cases node with
    | directory name path children => exact ⟨path, children, hm⟩
    | file name path content => cases hd
  · intro h
    obtain ⟨path, children, hm⟩ := h
    exact ⟨_, ⟨hm, rfl⟩, rfl⟩

/-- The children of a directory that stands at a place are what stands one place further. -/
theorem atPlace_concat {p : List String} {name path : String} {children nodes : List (Node α)} (h : Apart nodes)
    (hm : .directory name path children ∈ atPlace p nodes) : atPlace (p ++ [name]) nodes = children := by
  rw [atPlace_append, atPlace, atPlace]
  have hp : Apart (atPlace p nodes) := h.atPlace p
  generalize atPlace p nodes = here at hp hm
  induction here with
  | nil => cases hm
  | cons node rest ih =>
    rcases List.mem_cons.mp hm with rfl | hr
    · rw [childrenOf, if_pos rfl]
    · have hn : name ∈ directoryNames rest := mem_directoryNames.mpr ⟨_, _, hr⟩
      cases node with
      | file other otherPath content => exact ih hp.tail hr
      | directory other otherPath others =>
        have hne : other ≠ name := fun e => hp.notMem (e.symm ▸ hn)
        rw [childrenOf, if_neg hne]
        exact ih hp.tail hr

theorem directory_mem_locatedAll {position q : List String} {nodes : List (Node α)} (h : Apart nodes) :
    q ∈ (locatedAll position nodes).filterMap directory? ↔
      ∃ p name, q = position ++ p ++ [name] ∧ name ∈ directoryNames (atPlace p nodes) := by
  simp only [List.mem_filterMap, Prod.exists, mem_locatedAll h, mem_directoryNames]
  constructor
  · intro hm
    obtain ⟨_, node, ⟨p, rfl, hp⟩, hd⟩ := hm
    cases node with
    | file name path content => cases hd
    | directory name path children => exact ⟨p, name, (Option.some.inj hd).symm, path, children, hp⟩
  · intro hm
    obtain ⟨p, name, rfl, path, children, hp⟩ := hm
    exact ⟨_, _, ⟨p, rfl, hp⟩, rfl⟩

/-- The position of a directory starts with the name of one of the topmost. -/
theorem prefix_of_mem_locatedAll {position q : List String} {nodes : List (Node α)} (h : Apart nodes)
    (hq : q ∈ (locatedAll position nodes).filterMap directory?) : ∃ x ∈ directoryNames nodes, position ++ [x] <+: q := by
  obtain ⟨p, name, rfl, hn⟩ := (directory_mem_locatedAll h).mp hq
  cases p with
  | nil => exact ⟨name, hn, by simp⟩
  | cons x p =>
    refine ⟨x, Classical.byContradiction fun hx => ?_, by simp⟩
    rw [atPlace, childrenOf_eq_nil hx, atPlace_nil] at hn
    cases hn

mutual

theorem nodup_located {position : List String} {node : Node α} (h : Apart node.children) :
    ((located position node).filterMap directory?).Nodup := by
  cases node with
  | file name path content => simp [located, directory?, List.filterMap_cons]
  | directory name path children =>
    have hc : Apart children := h
    simp only [located, List.filterMap_cons, directory?]
    refine List.nodup_cons.mpr ⟨fun hm => ?_, nodup_locatedAll hc⟩
    obtain ⟨p, x, e, -⟩ := (directory_mem_locatedAll hc).mp hm
    simp at e

/-- No two directories have one position. -/
theorem nodup_locatedAll {position : List String} {nodes : List (Node α)} (h : Apart nodes) :
    ((locatedAll position nodes).filterMap directory?).Nodup := by
  cases nodes with
  | nil => simp [locatedAll]
  | cons node rest =>
    rw [locatedAll, List.filterMap_append]
    refine List.nodup_append.mpr ⟨nodup_located h.head, nodup_locatedAll h.tail, fun q hq q' hq' e => ?_⟩
    subst e
    obtain ⟨x, hx, hrest⟩ := prefix_of_mem_locatedAll h.tail hq'
    cases node with
    | file name path content => simp [located, directory?] at hq
    | directory name path children =>
      have hname : position ++ [name] <+: q := by
        simp only [located, List.filterMap_cons, directory?, List.mem_cons, Node.name] at hq
        rcases hq with rfl | hq
        · exact List.prefix_rfl
        · obtain ⟨y, -, hy⟩ := prefix_of_mem_locatedAll h.head hq
          exact (List.prefix_append _ _).trans hy
      exact h.notMem (Traversal.concat_prefix_concat hrest hname ▸ hx)

end

/-! ## Leaves -/

/-- The leaves below a directory at a position, with their contents. -/
def leavesOfAll (position : List String) (nodes : List (Node α)) : List (List String × α) :=
  (locatedAll position nodes).filterMap leaf?

section leaves

variable {position : List String} {rest : List (Node α)}

@[simp] theorem leavesOfAll_nil : leavesOfAll position ([] : List (Node α)) = [] := by
  rw [leavesOfAll, locatedAll, List.filterMap_nil]

@[simp] theorem leavesOfAll_file (name path : String) (content : α) :
    leavesOfAll position (.file name path content :: rest) =
      (position ++ [name], content) :: leavesOfAll position rest := by
  simp [leavesOfAll, locatedAll, located, leaf?, Node.name]

@[simp] theorem leavesOfAll_directory (name path : String) (children : List (Node α)) :
    leavesOfAll position (.directory name path children :: rest) =
      leavesOfAll (position ++ [name]) children ++ leavesOfAll position rest := by
  simp [leavesOfAll, locatedAll, located, leaf?, Node.name, List.filterMap_cons]

theorem leavesOfAll_append (nodes nodes' : List (Node α)) :
    leavesOfAll position (nodes ++ nodes') = leavesOfAll position nodes ++ leavesOfAll position nodes' := by
  induction nodes with
  | nil => simp
  | cons node nodes ih => cases node <;> simp [ih]

end leaves

/-- Leaves that a change adds to any directory of a name. -/
theorem leavesOfAll_alterDirectory {position : List String} {name path : String}
    {change : List (Node α) → List (Node α)} {added : List (List String × α)}
    (h : ∀ children, (leavesOfAll (position ++ [name]) (change children)).Perm
      (leavesOfAll (position ++ [name]) children ++ added)) (nodes : List (Node α)) :
    (leavesOfAll position (alterDirectory name path change nodes)).Perm (leavesOfAll position nodes ++ added) := by
  induction nodes with
  | nil => simpa [alterDirectory] using h []
  | cons node rest ih =>
    cases node with
    | file other otherPath content => simpa [alterDirectory] using ih
    | directory other otherPath children =>
      by_cases hn : other = name
      · subst hn
        simp only [alterDirectory, if_true, leavesOfAll_directory, List.append_assoc]
        refine ((h children).append_right _).trans ?_
        rw [List.append_assoc]
        exact List.perm_append_comm.append_left _
      · simpa only [alterDirectory, if_neg hn, leavesOfAll_directory, List.append_assoc] using ih.append_left _

/-- The leaf that an entry adds: at the position that its names give, unless it is a directory. -/
def leafOf? (e : String × α) : Option (List String × α) :=
  if EntryName.isDirectory e.1 = true ∨ segments e.1 = [] then none else some (segments e.1, e.2)

theorem leavesOfAll_insert (path : String) (names : List String) (isDirectory : Bool) (content : α)
    (position : List String) (nodes : List (Node α)) :
    (leavesOfAll position (insert path names isDirectory content nodes)).Perm
      (leavesOfAll position nodes ++
        if isDirectory = true ∨ names = [] then [] else [(position ++ names, content)]) := by
  induction names generalizing path position nodes with
  | nil => simp [insert]
  | cons first rest ih =>
    rw [insert_cons]
    by_cases h : rest = [] ∧ isDirectory = false
    · obtain ⟨rfl, rfl⟩ := h
      simp [leavesOfAll_append]
    · rw [if_neg h]
      refine leavesOfAll_alterDirectory (fun children => ?_) nodes
      refine (ih _ _ children).trans (List.Perm.of_eq ?_)
      have hr : (isDirectory = true ∨ rest = []) ↔ isDirectory = true := by
        cases isDirectory <;> simp_all
      simp only [hr, List.append_assoc, List.singleton_append, reduceCtorEq, or_false]

/-- The leaves are the entries that are files, at the positions that their names give. -/
theorem leavesOfAll_insertAll (path : String) (entries : List (String × α)) (nodes : List (Node α)) :
    (leavesOfAll [] (insertAll path entries nodes)).Perm (leavesOfAll [] nodes ++ entries.filterMap leafOf?) := by
  induction entries generalizing nodes with
  | nil => simp [insertAll]
  | cons e rest ih =>
    refine (ih _).trans (((leavesOfAll_insert path (segments e.1) _ e.2 [] nodes).append_right _).trans ?_)
    rw [List.append_assoc, List.filterMap_cons, leafOf?]
    split <;> simp

/-! ## Children in order -/

/-- What a directory has under a name: a directory, or a file with its content. -/
inductive Child (α : Type) where
  | directory (name : String)
  | file (name : String) (content : α)
  deriving DecidableEq

def Child.directoryName? : Child α → Option String
  | .directory name => some name
  | .file .. => none

/-- A node as a child of the directory that it is in. -/
def toChild : Node α → Child α
  | .directory name _ _ => .directory name
  | .file name _ content => .file name content

/-- The child that an entry mentions in the directory at a position: the next name on the way. -/
def mentioned? (position : List String) (e : String × α) : Option (Child α) :=
  match position.isPrefixOf? (segments e.1) with
  | some (next :: rest) =>
    some (if rest = [] ∧ EntryName.isDirectory e.1 = false then .file next e.2 else .directory next)
  | _ => none

/-- Children in the order in which they are first mentioned. A directory is one with those of its name; every
file is its own. -/
def firstMentions : List (Child α) → List (Child α)
  | [] => []
  | .file name content :: rest => .file name content :: firstMentions rest
  | .directory name :: rest =>
    .directory name :: (firstMentions rest).filter fun child => child.directoryName? ≠ some name

theorem firstMentions_concat_file (row : List (Child α)) (name : String) (content : α) :
    firstMentions (row ++ [.file name content]) = firstMentions row ++ [.file name content] := by
  induction row with
  | nil => rfl
  | cons child rest ih => cases child <;> simp [firstMentions, ih, Child.directoryName?]

theorem directory_mem_firstMentions {row : List (Child α)} {name : String} :
    .directory name ∈ firstMentions row ↔ .directory name ∈ row := by
  induction row with
  | nil => rfl
  | cons child rest ih =>
    cases child with
    | file other content => simp [firstMentions, ih]
    | directory other =>
      by_cases hn : name = other
      · simp [firstMentions, hn]
      · simp [firstMentions, hn, ih, Child.directoryName?]

theorem firstMentions_concat_directory (row : List (Child α)) (name : String) :
    (.directory name ∈ row → firstMentions (row ++ [.directory name]) = firstMentions row) ∧
      (.directory name ∉ row → firstMentions (row ++ [.directory name]) = firstMentions row ++ [.directory name]) := by
  induction row with
  | nil => simp [firstMentions]
  | cons child rest ih =>
    cases child with
    | file other content => simpa [firstMentions] using ih
    | directory other =>
      by_cases hn : name = other
      · subst hn
        by_cases hm : .directory name ∈ rest
        · simp [firstMentions, ih.1 hm]
        · simp [firstMentions, ih.2 hm, Child.directoryName?]
      · by_cases hm : .directory name ∈ rest
        · simp [firstMentions, hn, hm, ih.1 hm]
        · simp [firstMentions, hn, hm, ih.2 hm, Child.directoryName?]

theorem mentioned?_of_append {position rest : List String} {next : String} {e : String × α}
    (h : segments e.1 = position ++ next :: rest) : mentioned? position e =
      some (if rest = [] ∧ EntryName.isDirectory e.1 = false then .file next e.2 else .directory next) := by
  rw [mentioned?, List.isPrefixOf?_eq_some_iff_append_eq.mpr h.symm]

theorem mentioned?_eq_some_iff {position : List String} {e : String × α} {child : Child α} :
    mentioned? position e = some child ↔ ∃ next rest, segments e.1 = position ++ next :: rest ∧
      child = if rest = [] ∧ EntryName.isDirectory e.1 = false then .file next e.2 else .directory next := by
  constructor
  · intro h
    unfold mentioned? at h
    split at h
    · rename_i next rest hp
      exact ⟨next, rest, (List.isPrefixOf?_eq_some_iff_append_eq.mp hp).symm, (Option.some.inj h).symm⟩
    · cases h
  · intro h
    obtain ⟨next, rest, hs, rfl⟩ := h
    exact mentioned?_of_append hs

theorem directory_mem_toChild {name : String} {nodes : List (Node α)} :
    .directory name ∈ nodes.map toChild ↔ name ∈ directoryNames nodes := by
  rw [mem_directoryNames, List.mem_map]
  constructor
  · intro h
    obtain ⟨node, hm, e⟩ := h
    cases node with
    | directory other path children => cases e; exact ⟨path, children, hm⟩
    | file other path content => cases e
  · intro h
    obtain ⟨path, children, hm⟩ := h
    exact ⟨_, hm, rfl⟩

theorem toChild_alterDirectory (name path : String) (change : List (Node α) → List (Node α)) (nodes : List (Node α)) :
    (alterDirectory name path change nodes).map toChild =
      nodes.map toChild ++ if name ∈ directoryNames nodes then [] else [.directory name] := by
  induction nodes with
  | nil => rfl
  | cons node rest ih =>
    cases node with
    | file other otherPath content => exact congrArg (_ :: ·) ih
    | directory other otherPath children =>
      by_cases hn : other = name
      · simp [alterDirectory, hn, toChild]
      · simp [alterDirectory, hn, Ne.symm hn, ih, toChild]

/-- The children of a directory are what the entries mention there, in the order of the first mentions. -/
theorem toChild_insertAll (path : String) (p : List String) (entries : List (String × α)) :
    (atPlace p (insertAll path entries [])).map toChild = firstMentions (entries.filterMap (mentioned? p)) := by
  induction entries using List.reverseRecOn with
  | nil => rw [insertAll, List.foldl_nil, atPlace_nil]; rfl
  | append_singleton front e ih =>
    have hstep : insertAll path (front ++ [e]) [] =
        insert path (segments e.1) (EntryName.isDirectory e.1) e.2 (insertAll path front []) := by
      rw [insertAll, List.foldl_append]; rfl
    rw [hstep, List.filterMap_append]
    by_cases hp : ∃ next rest, segments e.1 = p ++ next :: rest
    · obtain ⟨next, rest, hs⟩ := hp
      rw [hs, atPlace_insert_append p (List.cons_ne_nil _ _), insert_cons]
      simp only [List.filterMap_cons, mentioned?_of_append hs, List.filterMap_nil]
      split
      · rw [firstMentions_concat_file, ← ih, List.map_append]
        rfl
      · rw [toChild_alterDirectory, ih]
        have hm : next ∈ directoryNames (atPlace p (insertAll path front [])) ↔
            .directory next ∈ front.filterMap (mentioned? p) := by
          rw [← directory_mem_toChild, ih, directory_mem_firstMentions]
        split
        · rename_i hd
          rw [(firstMentions_concat_directory _ next).1 (hm.mp hd), List.append_nil]
        · rename_i hd
          rw [(firstMentions_concat_directory _ next).2 fun h => hd (hm.mpr h)]
    · have hnone : mentioned? p e = none := by
        refine Option.eq_none_iff_forall_ne_some.mpr fun child h => hp ?_
        obtain ⟨next, rest, hs, -⟩ := mentioned?_eq_some_iff.mp h
        exact ⟨next, rest, hs⟩
      rw [atPlace_insert_other fun rest hr hs => ?_, ih]
      · simp [hnone]
      · obtain ⟨next, rest, rfl⟩ := List.exists_cons_of_ne_nil hr
        exact hp ⟨next, rest, hs⟩

/-! ## Paths -/

/-- The path of a node is that of the directory it is in and its name. -/
def Spelled (path : String) (node : Node α) : Prop :=
  node.path = path ++ node.name ++ if node.isDirectory then "/" else ""

theorem spelled_alterDirectory {path name : String} {change : List (Node α) → List (Node α)} {nodes : List (Node α)}
    (h : ∀ node ∈ nodes, Spelled path node) :
    ∀ node ∈ alterDirectory name (path ++ name ++ "/") change nodes, Spelled path node := by
  induction nodes with
  | nil =>
    intro node hm
    rw [List.mem_singleton.mp hm]
    rfl
  | cons first rest ih =>
    obtain ⟨hf, hr⟩ := List.forall_mem_cons.mp h
    cases first with
    | file other otherPath content => exact List.forall_mem_cons.mpr ⟨hf, ih hr⟩
    | directory other otherPath children =>
      rw [alterDirectory]
      split
      · exact List.forall_mem_cons.mpr ⟨hf, hr⟩
      · exact List.forall_mem_cons.mpr ⟨hf, ih hr⟩

theorem spelled_insert {path : String} {names : List String} {isDirectory : Bool} {content : α}
    {nodes : List (Node α)} (h : ∀ node ∈ nodes, Spelled path node) :
    ∀ node ∈ insert path names isDirectory content nodes, Spelled path node := by
  cases names with
  | nil => exact h
  | cons first rest =>
    rw [insert_cons]
    split
    · refine List.forall_mem_append.mpr ⟨h, List.forall_mem_singleton.mpr ?_⟩
      simp [Spelled, Node.path, Node.name, Node.isDirectory]
    · exact spelled_alterDirectory h

/-- The path of every node at a place is that of the place and the node's name. -/
theorem spelled_insertAll (path : String) (p : List String) (entries : List (String × α)) {nodes : List (Node α)}
    (h : ∀ node ∈ atPlace p nodes, Spelled (path ++ directoryPath p) node) :
    ∀ node ∈ atPlace p (insertAll path entries nodes), Spelled (path ++ directoryPath p) node := by
  induction entries generalizing nodes with
  | nil => exact h
  | cons e rest ih =>
    refine @ih (insert path (segments e.1) (EntryName.isDirectory e.1) e.2 nodes) ?_
    by_cases hp : ∃ rest, rest ≠ [] ∧ segments e.1 = p ++ rest
    · obtain ⟨rest, hr, hs⟩ := hp
      rw [hs, atPlace_insert_append p hr]
      exact spelled_insert h
    · rwa [atPlace_insert_other fun rest hr e => hp ⟨rest, hr, e⟩]

/-- The path of a place and a name is the row of names with a slash between them. -/
theorem directoryPath_append_eq (p : List String) (name : String) :
    directoryPath p ++ name = "/".intercalate (p ++ [name]) := by
  induction p with
  | nil => rw [directoryPath, String.empty_append, List.nil_append, String.intercalate_singleton]
  | cons first rest ih =>
    rw [EntryName.directoryPath_cons_append, ih, List.cons_append, String.intercalate_cons_of_ne_nil (by simp)]

/-! ## The whole tree -/

/-- The directories at a place are those that an entry leads through, or stands for. -/
theorem mem_directoryNames_insertAll {path : String} {p : List String} {x : String} {entries : List (String × α)} :
    x ∈ directoryNames (atPlace p (insertAll path entries [])) ↔
      ∃ e ∈ entries, ∃ rest, segments e.1 = p ++ [x] ++ rest ∧ (rest ≠ [] ∨ EntryName.isDirectory e.1 = true) := by
  rw [← directory_mem_toChild, toChild_insertAll, directory_mem_firstMentions, List.mem_filterMap]
  refine exists_congr fun e => and_congr_right fun _ => ?_
  rw [mentioned?_eq_some_iff]
  constructor
  · intro h
    obtain ⟨next, rest, hs, hc⟩ := h
    split at hc
    · cases hc
    · rename_i hd
      cases hc
      refine ⟨rest, by simpa using hs, ?_⟩
      rwa [not_and_or, Bool.not_eq_false] at hd
  · intro h
    obtain ⟨rest, hs, hd⟩ := h
    refine ⟨x, rest, by simpa using hs, ?_⟩
    rw [if_neg]
    rwa [not_and_or, Bool.not_eq_false]

/-- The tree of an archive is the directory tree of its safe entries. Its leaves are the entries that are files,
each once, with its content, at the position that its names give. Its directories, each once, are the root, the
places above entries and the entries that are directories. The children of a directory are in the order in which
they are first mentioned; names and paths spell the positions. While the tree grows, the tables tell exactly where
its directories stand. -/
theorem buildTree_located (name path : String) (entries : List (String × α)) :
    let safe := entries.filter fun e => EntryName.isSafe e.1
    let nodes := (buildTree name path entries).located []
    (nodes.filterMap leaf?).Perm (safe.filterMap leafOf?) ∧
    (nodes.filterMap directory?).Nodup ∧
    (∀ p, p ∈ nodes.filterMap directory? ↔ p = [] ∨
      ∃ e ∈ safe, ∃ rest, segments e.1 = p ++ rest ∧ (rest ≠ [] ∨ EntryName.isDirectory e.1 = true)) ∧
    (∀ p node, (p, node) ∈ nodes → node.isDirectory = true →
      node.children.map toChild = firstMentions (safe.filterMap (mentioned? p))) ∧
    (∀ p node, (p, node) ∈ nodes → node.name = p.getLastD name ∧
      node.path = path ++ "/".intercalate p ++ if node.isDirectory = true ∧ p ≠ [] then "/" else "") ∧
    ∀ front, ((Builder.empty name path).insertAll front : Builder α).Indexed := by
  rw [buildTree_eq]
  generalize entries.filter (fun e => EntryName.isSafe e.1) = safe
  dsimp only
  have hapart : Apart (insertAll path safe []) := apart_insertAll path safe apart_nil
  have hnodes : ∀ p node, (p, node) ∈ located [] (.directory name path (insertAll path safe [])) ↔
      (p = [] ∧ node = .directory name path (insertAll path safe [])) ∨
        ∃ q, p = q ++ [node.name] ∧ node ∈ atPlace q (insertAll path safe []) := fun p node => mem_located hapart
  refine ⟨?_, nodup_located hapart, fun p => ?_, fun p node hm hd => ?_, fun p node hm => ?_, fun front =>
    (Builder.indexed_empty name path).insertAll front⟩
  · have h := leavesOfAll_insertAll path safe []
    rw [leavesOfAll_nil, List.nil_append] at h
    rwa [located, List.filterMap_cons]
  · rw [located, List.filterMap_cons]
    refine List.mem_cons.trans (or_congr_right' fun hp => ?_)
    rw [directory_mem_locatedAll hapart]
    simp only [List.nil_append, mem_directoryNames_insertAll]
    constructor
    · intro h
      obtain ⟨q, x, rfl, h⟩ := h
      exact h
    · intro h
      rcases List.eq_nil_or_concat p with rfl | ⟨q, x, rfl⟩
      · exact absurd rfl hp
      · exact ⟨q, x, by simp, by simpa using h⟩
  · rcases (hnodes p node).mp hm with ⟨rfl, rfl⟩ | ⟨q, rfl, hq⟩
    · exact toChild_insertAll path [] safe
    · cases node with
      | file other otherPath content => cases hd
      | directory other otherPath children =>
        rw [← toChild_insertAll path, Node.name, atPlace_concat hapart hq]
        rfl
  · rcases (hnodes p node).mp hm with ⟨rfl, rfl⟩ | ⟨q, rfl, hq⟩
    · simp [Node.name, Node.path]
    · have hempty : ∀ node ∈ atPlace q ([] : List (Node α)), Spelled (path ++ directoryPath q) node := by simp
      refine ⟨by simp, ?_⟩
      rw [spelled_insertAll path q safe hempty node hq, ← directoryPath_append_eq]
      simp [String.append_assoc]

/-- A directory made late, one made for an entry below it, files that share its name, and an unsafe name. -/
theorem shared_names_located :
    let entries := [("com/acme/Foo.class", 0), ("META-INF/", 1), ("../Evil.class", 2), ("com", 3), ("com/", 4),
      ("com//Bar.class", 5), ("com", 6), ("com/acme/", 7)]
    let root := buildTree "lib.jar" "lib.jar!/" entries
    root.children.map toChild = [.directory "com", .directory "META-INF", .file "com" 3, .file "com" 6] ∧
      ∀ node, (["com"], node) ∈ root.located [] → node.isDirectory = true → node.path = "lib.jar!/com/" ∧
        node.children.map toChild = [.directory "acme", .file "Bar.class" 5] := by
  intro entries root
  obtain ⟨-, -, -, hchildren, hnames, -⟩ := buildTree_located "lib.jar" "lib.jar!/" entries
  refine ⟨(hchildren [] root (self_mem_located _ _) rfl).trans (by decide +kernel), fun node hm hd => ⟨?_, ?_⟩⟩
  · rw [(hnames _ node hm).2, hd]
    decide +kernel
  · exact (hchildren _ node hm hd).trans (by decide +kernel)

end Node

end SourceJar
