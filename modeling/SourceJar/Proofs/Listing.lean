import Mathlib
import SourceJar.Proofs.Changes

/-!
What stands below a place, in order.

Names and places are compared in byte order, which is a linear order (`placeBefore_iff`). In a file system that has
each place once (`Proper`) the listing of a place is what stands below it, each place once, in that order, so it
depends on nothing but what stands where (`mem_filesUnder`, `pairwise_filesUnder`, `filesUnder_filter_congr`).
Putting something somewhere and taking something away keep each place there once.
-/

namespace SourceJar.FileSystem

/-! ## Byte order -/

theorem bytesBefore_iff {a b : Bytes} : bytesBefore a b = true ↔ a < b := by
  induction a generalizing b with
  | nil => cases b <;> simp [bytesBefore]
  | cons x a ih => cases b <;> simp [bytesBefore, ih, List.cons_lt_cons_iff]

theorem placeBefore_iff {a b : Place} : placeBefore a b = true ↔ a < b := by
  induction a generalizing b with
  | nil => cases b <;> simp [placeBefore]
  | cons x a ih => cases b <;> simp [placeBefore, ih, bytesBefore_iff, List.cons_lt_cons_iff]

/-- Rows in order are the same if they have the same members. -/
theorem eq_of_ordered {row row' : List Place} (h : row.Pairwise (· < ·)) (h' : row'.Pairwise (· < ·))
    (hm : ∀ place, place ∈ row ↔ place ∈ row') : row = row' := by
  have hne : ∀ {a b : Place}, a < b → a ≠ b := fun hlt e => Std.lt_irrefl (e ▸ hlt)
  refine List.Perm.eq_of_pairwise (fun a b _ _ hab hba => ?_) h h'
    ((List.perm_ext_iff_of_nodup (h.imp hne) (h'.imp hne)).mpr hm)
  exact absurd (Std.lt_trans hab hba) Std.lt_irrefl

/-! ## Proper file systems -/

/-- Each place is there once. -/
def Distinct (fs : FileSystem) : Prop := (fs.nodes.map Prod.fst).Nodup

instance (fs : FileSystem) : Decidable fs.Distinct := inferInstanceAs (Decidable (List.Nodup _))

/-- A well-formed file system that has each place once, under names that a path can spell. -/
structure Proper (fs : FileSystem) : Prop extends fs.WellFormed where
  distinct : fs.Distinct
  named : ∀ place node, fs.get? place = some node → ∀ name ∈ place, IsName name ∧ IsSegment name

instance (name : Bytes) : Decidable (IsName name) :=
  decidable_of_iff (name ≠ [Path.dot] ∧ name ≠ [Path.dot, Path.dot] ∧ name.length ≤ maxName)
    ⟨fun h => ⟨h.1, h.2.1, h.2.2⟩, fun h => ⟨h.1, h.2, h.3⟩⟩

instance (name : Bytes) : Decidable (IsSegment name) :=
  decidable_of_iff (name ≠ [] ∧ Path.slash ∉ name) ⟨fun h => ⟨h.1, h.2⟩, fun h => ⟨h.1, h.2⟩⟩

/-- Whether a file system is proper can be seen from its nodes. -/
theorem WellFormed.proper {fs : FileSystem} (hfs : fs.WellFormed) (hd : fs.Distinct)
    (hn : ∀ pair ∈ fs.nodes, ∀ name ∈ pair.1, IsName name ∧ IsSegment name) : fs.Proper where
  toWellFormed := hfs
  distinct := hd
  named place node hg name hm := by
    by_cases hp : place = []
    · rw [hp] at hm
      cases hm
    · rw [get?, if_neg hp] at hg
      obtain ⟨front, back, e, -⟩ := List.lookup_eq_some_iff.mp hg
      exact hn (place, node) (by simp [e]) name hm

section Distinct

variable {fs : FileSystem}

theorem mem_setPair_fst {place other : Place} {node : Inode} {nodes : List (Place × Inode)} :
    other ∈ (setPair place node nodes).map Prod.fst ↔ other = place ∨ other ∈ nodes.map Prod.fst := by
  induction nodes with
  | nil => simp [setPair]
  | cons head rest ih =>
    unfold setPair
    split
    · rename_i e
      simp [e]
    · simp only [List.map_cons, List.mem_cons, ih]
      exact or_left_comm

theorem Distinct.put (h : fs.Distinct) (place : Place) (node : Inode) : (fs.put place node).Distinct := by
  unfold Distinct FileSystem.put at *
  generalize fs.nodes = nodes at h
  induction nodes with
  | nil => simp [setPair]
  | cons head rest ih =>
    rw [List.map_cons, List.nodup_cons] at h
    simp only [setPair]
    split
    · rename_i e
      exact List.nodup_cons.mpr ⟨e ▸ h.1, h.2⟩
    · rename_i e
      refine List.nodup_cons.mpr ⟨fun hm => ?_, ih h.2⟩
      rcases mem_setPair_fst.mp hm with hm | hm
      · exact e hm
      · exact h.1 hm

theorem Distinct.erase (h : fs.Distinct) (place : Place) : (fs.erase place).Distinct :=
  (List.filter_sublist.map Prod.fst).nodup h

theorem Distinct.mem_nodes_iff (h : fs.Distinct) {place : Place} {node : Inode} (hp : place ≠ []) :
    (place, node) ∈ fs.nodes ↔ fs.get? place = some node := by
  rw [get?, if_neg hp]
  unfold Distinct at h
  generalize fs.nodes = nodes at h
  induction nodes with
  | nil => simp
  | cons head rest ih =>
    obtain ⟨other, old⟩ := head
    rw [List.map_cons, List.nodup_cons] at h
    rw [List.mem_cons, List.lookup_cons]
    by_cases e : place = other
    · subst e
      have hn : (place, node) ∉ rest := fun hm => h.1 (List.mem_map.mpr ⟨_, hm, rfl⟩)
      simp [hn, eq_comm]
    · simp [e, beq_false_of_ne e, ih h.2]

end Distinct

/-! ## The files below a place -/

/-- What a node adds to the listing of a place, if it is below the place. -/
def listed? (top : Place) : Place × Inode → Option (Place × Inode)
  | (place, node) =>
    match Split.dropStart? top place with
    | some (name :: rest) => some (name :: rest, node)
    | _ => none

theorem below_eq (fs : FileSystem) (top : Place) :
    fs.below top = (fs.nodes.filterMap (listed? top)).mergeSort fun a b => !placeBefore b.1 a.1 := rfl

theorem listed?_eq_some_iff {top : Place} {pair : Place × Inode} {names : Place} {node : Inode} :
    listed? top pair = some (names, node) ↔ names ≠ [] ∧ pair = (top ++ names, node) := by
  obtain ⟨place, node'⟩ := pair
  constructor
  · intro h
    rw [listed?] at h
    rcases hd : Split.dropStart? top place with _ | row
    · rw [hd] at h
      cases h
    · obtain rfl := Split.dropStart?_eq_some_iff.mp hd
      rw [hd] at h
      cases row with
      | nil => cases h
      | cons name rest =>
        cases h
        exact ⟨List.cons_ne_nil _ _, rfl⟩
  · intro h
    obtain ⟨hne, e⟩ := h
    cases e
    obtain ⟨name, rest, rfl⟩ := List.exists_cons_of_ne_nil hne
    rw [listed?, Split.dropStart?_eq_some_iff.mpr rfl]

/-- The names from a place down to the regular files below it, in order. -/
def filesUnder (fs : FileSystem) (top : Place) : List Place :=
  (fs.below top).filterMap fun (names, node) =>
    match node with
    | .file _ => some names
    | _ => none

section Under

variable {fs : FileSystem} (h : fs.Distinct) (top : Place)

include h in
theorem mem_below {names : Place} {node : Inode} :
    (names, node) ∈ fs.below top ↔ names ≠ [] ∧ fs.get? (top ++ names) = some node := by
  rw [below_eq, List.mem_mergeSort, List.mem_filterMap]
  simp only [listed?_eq_some_iff]
  constructor
  · intro hm
    obtain ⟨_, hm, hne, rfl⟩ := hm
    exact ⟨hne, (h.mem_nodes_iff (by simp [hne])).mp hm⟩
  · intro hm
    obtain ⟨hne, hg⟩ := hm
    exact ⟨_, (h.mem_nodes_iff (by simp [hne])).mpr hg, hne, rfl⟩

include h in
/-- What stands below a place is listed in order. -/
theorem pairwise_below : (fs.below top).Pairwise fun a b => a.1 < b.1 := by
  have hle : ∀ a b : Place × Inode, (!placeBefore b.1 a.1) = true ↔ a.1 ≤ b.1 := fun a b => by
    rw [Bool.not_eq_true', Bool.eq_false_iff, ne_eq, placeBefore_iff, Std.not_lt]
  have hsorted : (fs.below top).Pairwise fun a b => a.1 ≤ b.1 := by
    refine (List.pairwise_mergeSort ?_ ?_ _).imp fun hab => (hle _ _).mp hab
    · exact fun a b c hab hbc => (hle a c).mpr (Std.le_trans ((hle a b).mp hab) ((hle b c).mp hbc))
    · exact fun a b => by
        rw [Bool.or_eq_true, hle, hle]
        exact Std.le_total
  have hdistinct : (fs.below top).Pairwise fun a b => a.1 ≠ b.1 := by
    refine (List.mergeSort_perm _ _).symm.pairwise ?_ fun hab => Ne.symm hab
    refine List.Pairwise.filterMap _ ?_ (List.pairwise_map.mp h)
    intro pair pair' hne found hf found' hf' e
    rw [(listed?_eq_some_iff.mp hf).2, (listed?_eq_some_iff.mp hf').2, e] at hne
    exact hne rfl
  exact hsorted.imp₂ (fun _ _ hab hne => Std.lt_of_le_of_ne hab hne) hdistinct

include h in
theorem mem_filesUnder {names : Place} :
    names ∈ fs.filesUnder top ↔ names ≠ [] ∧ ∃ content, fs.get? (top ++ names) = some (.file content) := by
  unfold filesUnder
  rw [List.mem_filterMap]
  constructor
  · intro hm
    obtain ⟨⟨names', node⟩, hm, e⟩ := hm
    obtain ⟨hne, hg⟩ := (mem_below h top).mp hm
    cases node with
    | file content => cases e; exact ⟨hne, content, hg⟩
    | _ => cases e
  · intro hm
    obtain ⟨hne, content, hg⟩ := hm
    exact ⟨_, (mem_below h top).mpr ⟨hne, hg⟩, rfl⟩

include h in
theorem pairwise_filesUnder : (fs.filesUnder top).Pairwise (· < ·) := by
  refine List.Pairwise.filterMap _ ?_ (pairwise_below h top)
  intro a b hab names hn names' hn'
  obtain ⟨names, node⟩ := a
  obtain ⟨names', node'⟩ := b
  cases node <;> cases hn
  cases node' <;> cases hn'
  exact hab

end Under

/-- Which of some files are listed below a place depends on nothing but which of them stand there. -/
theorem filesUnder_filter_congr {fs fs' : FileSystem} (h : fs.Distinct) (h' : fs'.Distinct) (top : Place)
    (wanted : Place → Bool)
    (hw : ∀ names, names ≠ [] → wanted names = true →
      ((∃ content, fs'.get? (top ++ names) = some (.file content)) ↔
        ∃ content, fs.get? (top ++ names) = some (.file content))) :
    (fs'.filesUnder top).filter wanted = (fs.filesUnder top).filter wanted := by
  refine eq_of_ordered ((pairwise_filesUnder h' top).filter _) ((pairwise_filesUnder h top).filter _) fun names => ?_
  rw [List.mem_filter, List.mem_filter, mem_filesUnder h', mem_filesUnder h, and_right_comm,
    and_right_comm (c := _ = _)]
  exact and_congr_right fun hn => hw names hn.1 hn.2

end SourceJar.FileSystem
