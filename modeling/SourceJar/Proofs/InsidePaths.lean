import SourceJar.Proofs.DirectoryTrees
import SourceJar.Proofs.Independence
import SourceJar.Proofs.SafeNames

/-!
Paths inside an archive, read back from whole paths.

The path of a node is the archive's own path, a mark and the path inside the archive (`insidePath`). It is cut at
its first mark. A mark in the names of entries comes later and does no harm, but one in the archive's own path comes
first: then what follows it there stays in front of what is read back (`leftover`).

- `path_located`: the whole path of every node of a tree.
- `entryPath_located`: what is read back from it, for every node of an archive that opens.
- `marked_archive_entryPath`: an archive whose own name has a mark.
-/

namespace SourceJar.Node

open Archive
open Archive.EntryName (directoryPath)

variable {α : Type}

/-! ## Cutting at the first mark -/

/-- The path inside an archive of the node at a position: the names on the way with a slash in front of each, and for a
directory below the root one more slash. -/
def insidePath (position : List String) (node : Node α) : String :=
  "/" ++ "/".intercalate position ++ if node.isDirectory = true ∧ position ≠ [] then "/" else ""

/-- What follows the first mark of an archive's own path, and the mark after the path; nothing if it has no mark. -/
def leftover (archivePath : String) : String :=
  match Split.cutFirst? rootMark archivePath.toList with
  | some (_, rest) => String.ofList rest ++ String.singleton rootMark
  | none => ""

theorem leftover_cases (archivePath : String) :
    (rootMark ∉ archivePath.toList ∧ leftover archivePath = "") ∨
      ∃ before rest, rootMark ∉ before.toList ∧ archivePath = before ++ String.singleton rootMark ++ rest ∧
        leftover archivePath = rest ++ String.singleton rootMark := by
  unfold leftover
  rcases hc : Split.cutFirst? rootMark archivePath.toList with _ | ⟨before, rest⟩
  · refine Or.inl ⟨fun hm => ?_, rfl⟩
    obtain ⟨before, rest, e, hbefore⟩ := List.eq_append_cons_of_mem hm
    have hsome := Split.cutFirst?_eq_some_iff.mpr ⟨hbefore, e⟩
    rw [hc] at hsome
    cases hsome
  · obtain ⟨hbefore, e⟩ := Split.cutFirst?_eq_some_iff.mp hc
    refine Or.inr ⟨String.ofList before, String.ofList rest, by rwa [String.toList_ofList], ?_, rfl⟩
    apply String.toList_inj.mp
    simp [e]

theorem leftover_eq_empty_iff {archivePath : String} : leftover archivePath = "" ↔ rootMark ∉ archivePath.toList := by
  rcases leftover_cases archivePath with ⟨hnone, e⟩ | ⟨before, rest, -, rfl, e⟩
  · exact iff_of_true e hnone
  · refine iff_of_false ?_ (by simp)
    rw [e]
    simp

theorem entryPath_of_first_mark {node : Node α} {before inside : String} (h : rootMark ∉ before.toList)
    (hp : node.path = before ++ String.singleton rootMark ++ inside) : node.entryPath = inside := by
  have hc : Split.cutFirst? rootMark node.path.toList = some (before.toList, inside.toList) := by
    refine Split.cutFirst?_eq_some_iff.mpr ⟨h, ?_⟩
    rw [hp, String.toList_append, String.toList_append, String.toList_singleton, List.append_assoc,
      List.singleton_append]
  rw [entryPath, hc]
  exact String.ofList_toList

theorem entryPath_of_path {node : Node α} {archivePath inside : String}
    (hp : node.path = archivePath ++ String.singleton rootMark ++ inside) :
    node.entryPath = leftover archivePath ++ inside := by
  rcases leftover_cases archivePath with ⟨hnone, e⟩ | ⟨before, rest, hbefore, rfl, e⟩
  · rw [e, String.empty_append]
    exact entryPath_of_first_mark hnone hp
  · refine entryPath_of_first_mark hbefore (hp.trans ?_)
    rw [e]
    simp only [String.append_assoc]

/-! ## The tree of an archive -/

/-- In a tree that is grown from entries, the path of every node is that of the root and the names on the way. -/
theorem path_located {name path : String} {entries : List (String × α)} {position : List String} {node : Node α}
    (hm : (position, node) ∈ (buildTree name path entries).located []) :
    node.path = path ++ "/".intercalate position ++ if node.isDirectory = true ∧ position ≠ [] then "/" else "" := by
  rw [buildTree_eq] at hm
  have hapart : Apart (insertAll path (entries.filter fun e => EntryName.isSafe e.1) []) :=
    apart_insertAll _ _ apart_nil
  rcases (@mem_located α [] position (.directory name path _) node hapart).mp hm with ⟨rfl, rfl⟩ | ⟨place, rfl, hplace⟩
  · simp [Node.path]
  · have hnone : ∀ node ∈ atPlace place ([] : List (Node α)), Spelled (path ++ directoryPath place) node := by simp
    have hspelled := spelled_insertAll path place _ hnone node hplace
    rw [hspelled, List.nil_append, ← directoryPath_append_eq, ← String.append_assoc]
    simp

/-- For every node of an archive that opens, what is read back from its path is the path inside the archive, with what
is left of the archive's own path in front. So it is the path inside exactly if the archive's own path has no mark,
whatever marks the names of entries have. -/
theorem entryPath_located {fs : FileSystem} {p : Path} {root : Entry} (ho : openArchive fs p = .ok root) :
    ∀ position node, (position, node) ∈ root.located [] →
      node.entryPath = leftover p.display ++ insidePath position node ∧
        (node.entryPath = insidePath position node ↔ rootMark ∉ p.display.toList) := by
  intro position node hm
  obtain ⟨name, data, entries, -, -, -, rfl⟩ := Traversal.openArchive_eq_ok ho
  have hpath : node.path = p.display ++ String.singleton rootMark ++ insidePath position node := by
    rw [path_located hm, insidePath]
    simp only [String.append_assoc]
  have hentry := entryPath_of_path hpath
  refine ⟨hentry, ?_⟩
  rw [hentry, ← leftover_eq_empty_iff]
  constructor
  · intro h
    have hlength := congrArg String.length h
    rw [String.length_append] at hlength
    exact String.length_eq_zero_iff.mp (by omega)
  · intro h
    rw [h, String.empty_append]

/-- A mark in the name of a directory inside an archive. -/
theorem marked_directory_entryPath :
    let fs := Batch.holding [(["lib.jar"], .file (Zip.encode [⟨"a!b/X.class", []⟩]))]
    ∃ root node, openArchive fs (Path.ofText "lib.jar") = .ok root ∧ (["a!b", "X.class"], node) ∈ root.located [] ∧
      node.entryPath = "/a!b/X.class" := by
  intro fs
  let node : Entry := .file "X.class" "lib.jar!/a!b/X.class" (.ok [])
  let root : Entry := .directory "lib.jar" "lib.jar!/" [.directory "a!b" "lib.jar!/a!b/" [node]]
  have hopen : openArchive fs (Path.ofText "lib.jar") = .ok root := by
    simp only [fs, root, node]
    cbv
  have hm : (["a!b", "X.class"], node) ∈ root.located [] := by simp [root, node, located, locatedAll, Node.name]
  have hpath : node.entryPath = insidePath ["a!b", "X.class"] node :=
    (entryPath_located hopen _ node hm).2.mpr (by decide +kernel)
  exact ⟨root, node, hopen, hm, hpath.trans (by decide +kernel)⟩

/-- A mark in the archive's own name: the path inside is not what is read back. -/
theorem marked_archive_entryPath :
    let fs := Batch.holding [(["a!b.jar"], .file (Zip.encode [⟨"X.class", []⟩]))]
    ∃ root node, openArchive fs (Path.ofText "a!b.jar") = .ok root ∧ (["X.class"], node) ∈ root.located [] ∧
      node.entryPath = "b.jar!/X.class" ∧ insidePath ["X.class"] node = "/X.class" := by
  intro fs
  let node : Entry := .file "X.class" "a!b.jar!/X.class" (.ok [])
  let root : Entry := .directory "a!b.jar" "a!b.jar!/" [node]
  have hopen : openArchive fs (Path.ofText "a!b.jar") = .ok root := by
    simp only [fs, root, node]
    cbv
  have hm : (["X.class"], node) ∈ root.located [] := by simp [root, node, located, locatedAll, Node.name]
  exact ⟨root, node, hopen, hm, by decide +kernel, by decide +kernel⟩

end SourceJar.Node
