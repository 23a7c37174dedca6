import SourceJar.Archive.Tree
import SourceJar.Proofs.Places

/-!
A growing tree and its tables.

The tables of a growing tree tell exactly where its directories stand (`Tabled`), at every depth (`Indexed`), and
every entry that is added keeps them so. Hence an entry reaches the directories that its names lead to, and the
finished tree is the one that adding the entries by their names alone gives.

- `Indexed.insert`, `Indexed.insertAll`: the tables stay right.
- `build_insert`, `buildTree_eq`: the finished tree.
-/

namespace SourceJar

namespace Archive

open EntryName (segments)

variable {α : Type}

namespace Builder

/-! ## Tables of positions -/

/-- A table tells exactly where among its children the directory at `path` has the directory of a name. -/
structure Tabled (path : String) (children : List (Builder α)) (positions : List (String × Nat)) : Prop where
  /-- Every position in the table is that of the directory of the name. -/
  found : ∀ {name position}, positions.lookup name = some position →
    ∃ below table, children[position]? = some (.directory name (path ++ name ++ "/") below table)
  /-- Every directory is in the table. -/
  known : ∀ {position name childPath below table},
    children[position]? = some (.directory name childPath below table) → positions.lookup name = some position

/-- The tables of a directory and of all directories below it are right. -/
inductive Indexed : Builder α → Prop
  | directory {name path : String} {children : List (Builder α)} {positions : List (String × Nat)}
      (table : Tabled path children positions) (below : ∀ child ∈ children, Indexed child) :
      Indexed (.directory name path children positions)
  | entry {name path : String} {content : α} : Indexed (.entry name path content)

theorem indexed_empty (name path : String) : Indexed (empty name path : Builder α) :=
  .directory ⟨fun h => (by cases h), fun h => (by cases h)⟩ fun _ h => absurd h List.not_mem_nil

section Tabled

variable {path : String} {children : List (Builder α)} {positions : List (String × Nat)}

/-- What stands among the children stands there when one more is put at the end. -/
theorem getElem?_concat_of_some {position : Nat} {child : Builder α} (h : children[position]? = some child)
    (last : Builder α) : (children ++ [last])[position]? = some child := by
  rw [List.getElem?_append_left (List.getElem?_eq_some_iff.mp h).1, h]

theorem getElem?_concat_eq_some {position : Nat} {child last : Builder α}
    (h : (children ++ [last])[position]? = some child) :
    children[position]? = some child ∨ position = children.length ∧ child = last := by
  by_cases hp : position < children.length
  · rw [List.getElem?_append_left hp] at h
    exact .inl h
  · obtain ⟨hlt, -⟩ := List.getElem?_eq_some_iff.mp h
    rw [List.length_append, List.length_singleton] at hlt
    have he : position = children.length := by omega
    rw [he, List.getElem?_concat_length, Option.some.injEq] at h
    exact .inr ⟨he, h.symm⟩

theorem Tabled.append_entry (h : Tabled path children positions) (name entryPath : String) (content : α) :
    Tabled path (children ++ [.entry name entryPath content]) positions where
  found hl := by
    obtain ⟨below, table, hc⟩ := h.found hl
    exact ⟨below, table, getElem?_concat_of_some hc _⟩
  known hc := by
    rcases getElem?_concat_eq_some hc with hc | ⟨-, e⟩
    · exact h.known hc
    · cases e

theorem Tabled.append_empty (h : Tabled path children positions) {name : String}
    (hn : positions.lookup name = none) :
    Tabled path (children ++ [empty name (path ++ name ++ "/")]) ((name, children.length) :: positions) where
  found {other position} hl := by
    by_cases he : other = name
    · subst he
      rw [List.lookup_cons_self, Option.some.injEq] at hl
      rw [← hl, List.getElem?_concat_length]
      exact ⟨[], [], rfl⟩
    · rw [List.lookup_cons, beq_false_of_ne he] at hl
      obtain ⟨below, table, hc⟩ := h.found hl
      exact ⟨below, table, getElem?_concat_of_some hc _⟩
  known {position other _ _ _} hc := by
    rcases getElem?_concat_eq_some hc with hc | ⟨hp, e⟩
    · have hl := h.known hc
      have he : other ≠ name := fun e => by rw [e, hn] at hl; cases hl
      rwa [List.lookup_cons, beq_false_of_ne he]
    · cases e
      rw [hp, List.lookup_cons_self]

/-- A change to the directory at a position that keeps it a directory of that name and path. -/
theorem Tabled.modify (h : Tabled path children positions) (position : Nat) {change : Builder α → Builder α}
    (hentry : ∀ name entryPath content, change (.entry name entryPath content) = .entry name entryPath content)
    (hdirectory : ∀ name childPath below table, ∃ below' table',
      change (.directory name childPath below table) = .directory name childPath below' table') :
    Tabled path (children.modify position change) positions where
  found {name at'} hl := by
    obtain ⟨below, table, hc⟩ := h.found hl
    obtain ⟨below', table', e⟩ := hdirectory name (path ++ name ++ "/") below table
    rw [List.getElem?_modify, hc]
    by_cases hp : position = at'
    · exact ⟨below', table', by simp [hp, e]⟩
    · exact ⟨below, table, by simp [hp]⟩
  known {at' name childPath below table} hc := by
    rw [List.getElem?_modify] at hc
    obtain ⟨child, hchild, e⟩ := Option.map_eq_some_iff.mp hc
    by_cases hp : position = at'
    · rw [if_pos hp] at e
      cases child with
      | entry name entryPath content => rw [hentry] at e; cases e
      | directory other otherPath below table =>
        obtain ⟨below', table', e'⟩ := hdirectory other otherPath below table
        rw [e'] at e
        cases e
        exact h.known hchild
    · rw [if_neg hp] at e
      exact h.known (e ▸ hchild)

/-- The directory of a name is reached at the position that the table has for it; it may have been made just
before, at the end. -/
theorem Tabled.reach (h : Tabled path children positions) (name : String) :
    let reached := reach name (path ++ name ++ "/") children positions
    Tabled path reached.1 reached.2.1 ∧ reached.2.1.lookup name = some reached.2.2 ∧
      (reached.1 = children ∨
        positions.lookup name = none ∧ reached.1 = children ++ [empty name (path ++ name ++ "/")]) := by
  intro reached
  rcases hl : positions.lookup name with _ | position
  · have e : reached = (children ++ [empty name (path ++ name ++ "/")], (name, children.length) :: positions,
        children.length) := by simp only [reached, Builder.reach, hl]
    rw [e]
    exact ⟨h.append_empty hl, List.lookup_cons_self, .inr ⟨rfl, rfl⟩⟩
  · have e : reached = (children, positions, position) := by simp only [reached, Builder.reach, hl]
    rw [e]
    exact ⟨h, hl, .inl rfl⟩

end Tabled

/-! ## Adding entries keeps the tables right -/

section insert

variable (names : List String) (isDirectory : Bool) (content : α)

theorem insert_entry (name path : String) (other : α) :
    insert names isDirectory content (.entry name path other) = .entry name path other := by
  cases names <;> rfl

theorem exists_insert_directory (name path : String) (children : List (Builder α)) (positions : List (String × Nat)) :
    ∃ children' positions', insert names isDirectory content (.directory name path children positions) =
      .directory name path children' positions' := by
  cases names with
  | nil => exact ⟨_, _, rfl⟩
  | cons first rest =>
    rw [insert]
    split
    · exact ⟨_, _, rfl⟩
    · exact ⟨_, _, rfl⟩

theorem mem_modify {children : List (Builder α)} {position : Nat} {change : Builder α → Builder α}
    {child : Builder α} (h : child ∈ children.modify position change) :
    ∃ old ∈ children, child = old ∨ child = change old := by
  obtain ⟨i, hi⟩ := List.mem_iff_getElem?.mp h
  rw [List.getElem?_modify] at hi
  obtain ⟨old, hold, e⟩ := Option.map_eq_some_iff.mp hi
  refine ⟨old, List.mem_of_getElem? hold, ?_⟩
  split at e
  · exact .inr e.symm
  · exact .inl e.symm

variable {names isDirectory content} in
theorem Indexed.insert {builder : Builder α} (h : Indexed builder) :
    Indexed (builder.insert names isDirectory content) := by
  induction names generalizing builder with
  | nil => exact h
  | cons first rest ih =>
    cases h with
    | entry => exact .entry
    | @directory name path children positions table below =>
      rw [Builder.insert]
      split
      · refine .directory (table.append_entry _ _ _) fun child hc => ?_
        rcases List.mem_append.mp hc with hc | hc
        · exact below child hc
        · rw [List.mem_singleton.mp hc]
          exact .entry
      · obtain ⟨htable, -, hreached⟩ := table.reach first
        have hbelow : ∀ child ∈ (reach first (path ++ first ++ "/") children positions).1, Indexed child := by
          intro child hc
          rcases hreached with e | ⟨-, e⟩
          · exact below child (e ▸ hc)
          · rcases List.mem_append.mp (e ▸ hc) with hc | hc
            · exact below child hc
            · rw [List.mem_singleton.mp hc]
              exact indexed_empty _ _
        refine .directory (htable.modify _ (insert_entry _ _ _) (exists_insert_directory _ _ _)) fun child hc => ?_
        obtain ⟨old, hold, rfl | rfl⟩ := mem_modify hc
        · exact hbelow _ hold
        · exact ih (hbelow _ hold)

end insert

theorem Indexed.insertAll {builder : Builder α} (h : Indexed builder) (entries : List (String × α)) :
    Indexed (builder.insertAll entries) := by
  induction entries generalizing builder with
  | nil => exact h
  | cons e rest ih => exact ih h.insert

/-! ## The finished tree -/

open Node (alterDirectory directoryNames)

theorem buildAll_append (front back : List (Builder α)) :
    buildAll (front ++ back) = buildAll front ++ buildAll back := by
  induction front with
  | nil => rfl
  | cons child rest ih => simp only [List.cons_append, buildAll, ih]

theorem exists_of_mem_directoryNames_buildAll {name : String} {children : List (Builder α)}
    (h : name ∈ directoryNames (buildAll children)) :
    ∃ path below table, .directory name path below table ∈ children := by
  induction children with
  | nil => cases h
  | cons child rest ih =>
    have hrest : name ∈ directoryNames (buildAll rest) →
        ∃ path below table, .directory name path below table ∈ child :: rest := fun h => by
      obtain ⟨path, below, table, hm⟩ := ih h
      exact ⟨path, below, table, List.mem_cons_of_mem _ hm⟩
    cases child with
    | entry other path content => exact hrest h
    | directory other path below table =>
      rcases List.mem_cons.mp h with rfl | h
      · exact ⟨path, below, table, List.mem_cons_self⟩
      · exact hrest h

/-- A change to the first directory of a name, in the growing tree and in the finished one. -/
theorem buildAll_modify {name path : String} {change : List (Node α) → List (Node α)}
    {grow : Builder α → Builder α} {children below : List (Builder α)} {table : List (String × Nat)} {position : Nat}
    (hat : children[position]? = some (.directory name path below table))
    (hfirst : ∀ i path below table, children[i]? = some (.directory name path below table) → i = position)
    (hgrow : (grow (.directory name path below table)).build = .directory name path (change (buildAll below))) :
    buildAll (children.modify position grow) = alterDirectory name path change (buildAll children) := by
  induction children generalizing position with
  | nil => cases hat
  | cons child rest ih =>
    cases position with
    | zero =>
      rw [List.getElem?_cons_zero, Option.some.injEq] at hat
      subst hat
      simp only [List.modify_zero_cons, buildAll, hgrow, build, alterDirectory, if_true]
    | succ position =>
      have hr := ih hat fun i path below table h => Nat.succ.inj (hfirst (i + 1) path below table h)
      rw [List.modify_succ_cons, buildAll, hr]
      cases child with
      | entry other otherPath content => rfl
      | directory other otherPath below table =>
        have hne : other ≠ name := fun e => absurd (hfirst 0 otherPath below table (by rw [e]; rfl)) (by omega)
        simp only [buildAll, build, alterDirectory, if_neg hne]

theorem alterDirectory_concat {name path : String} {change : List (Node α) → List (Node α)}
    {nodes : List (Node α)} (h : name ∉ directoryNames nodes) :
    alterDirectory name path change (nodes ++ [.directory name path []]) = alterDirectory name path change nodes := by
  induction nodes with
  | nil => simp [alterDirectory]
  | cons node rest ih =>
    cases node with
    | file other otherPath content => exact congrArg (_ :: ·) (ih h)
    | directory other otherPath children =>
      rw [Node.directoryNames_directory, List.mem_cons, not_or] at h
      simp only [List.cons_append, alterDirectory, if_neg (Ne.symm h.1), ih h.2]

/-- An entry that is added reaches the directories that its names lead to. -/
theorem build_insert (names : List String) (isDirectory : Bool) (content : α) {name path : String}
    {children : List (Builder α)} {positions : List (String × Nat)}
    (h : Indexed (.directory name path children positions)) :
    (insert names isDirectory content (.directory name path children positions)).build =
      .directory name path (Node.insert path names isDirectory content (buildAll children)) := by
  induction names generalizing name path children positions with
  | nil => rfl
  | cons first rest ih =>
    cases h with
    | directory table below =>
      rw [insert, Node.insert]
      split
      · rw [build, buildAll_append]; rfl
      · obtain ⟨htable, hlookup, hreached⟩ := table.reach first
        obtain ⟨below', table', hat⟩ := htable.found hlookup
        have hindexed : Indexed (.directory first (path ++ first ++ "/") below' table') := by
          rcases hreached with e | ⟨-, e⟩
          · exact below _ (List.mem_of_getElem? (e ▸ hat))
          · rcases getElem?_concat_eq_some (e ▸ hat) with hat | ⟨-, e⟩
            · exact below _ (List.mem_of_getElem? hat)
            · rw [e]
              exact indexed_empty _ _
        rw [build, buildAll_modify hat (fun i _ _ _ hi => Option.some.inj ((htable.known hi).symm.trans hlookup))
          (ih hindexed)]
        rcases hreached with e | ⟨hnone, e⟩
        · rw [e]
        · rw [e, buildAll_append]
          refine congrArg _ (alterDirectory_concat fun hm => ?_)
          obtain ⟨_, _, _, hm⟩ := exists_of_mem_directoryNames_buildAll hm
          obtain ⟨i, hi⟩ := List.mem_iff_getElem?.mp hm
          rw [table.known hi] at hnone
          cases hnone

theorem build_insertAll {name path : String} {children : List (Builder α)} {positions : List (String × Nat)}
    (h : Indexed (.directory name path children positions)) (entries : List (String × α)) :
    (insertAll entries (.directory name path children positions)).build =
      .directory name path (Node.insertAll path entries (buildAll children)) := by
  induction entries generalizing children positions with
  | nil => rfl
  | cons e rest ih =>
    obtain ⟨children', positions', hi⟩ :=
      exists_insert_directory (segments e.1) (EntryName.isDirectory e.1) e.2 name path children positions
    have hb := build_insert (segments e.1) (EntryName.isDirectory e.1) e.2 h
    have h' : Indexed (insert (segments e.1) (EntryName.isDirectory e.1) e.2
      (.directory name path children positions)) := h.insert
    rw [hi] at hb h'
    injection hb with _ _ hc
    refine Eq.trans (congrArg (fun builder => (insertAll rest builder).build) hi) ?_
    rw [ih h', hc]
    rfl

end Builder

/-- The tree of some entries is what adding the safe ones by their names gives. -/
theorem buildTree_eq (name path : String) (entries : List (String × α)) :
    buildTree name path entries =
      .directory name path (Node.insertAll path (entries.filter fun e => EntryName.isSafe e.1) []) :=
  Builder.build_insertAll (Builder.indexed_empty name path) _

end Archive

end SourceJar
