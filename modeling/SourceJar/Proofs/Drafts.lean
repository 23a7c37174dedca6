import SourceJar.Archive.Draft
import SourceJar.Archive.EntryName

/-!
What additions do to a draft.

A draft turns away a path that it has seen, and the archive format turns away a name that is taken. If
every directory path ends in a slash the two never disagree: each entry's name is a path that was seen
(`Named`), so a path that was not seen is a name that is free, and no addition fails. What a row of
additions leaves behind is then a matter of first occurrences (`Takes`).

- `Reached.named`: every draft that well-named additions lead to is `Named`.
- `addDirectory_takes`, `addFile_takes`: such an addition succeeds and takes its entry.
- `Takes.trans`: rows of additions follow one another.
-/

namespace SourceJar.Archive

/-- The entries of a row whose paths are not in `seen` and occur in the row for the first time. -/
def firstNew (seen : List String) : List DraftEntry → List DraftEntry
  | [] => []
  | entry :: rest =>
    if entry.name ∈ seen then firstNew seen rest else entry :: firstNew (entry.name :: seen) rest

/-- Only the members of `seen` count, not their order. -/
theorem firstNew_congr {seen seen' : List String} (h : ∀ path, path ∈ seen ↔ path ∈ seen')
    (entries : List DraftEntry) : firstNew seen entries = firstNew seen' entries := by
  induction entries generalizing seen seen' with
  | nil => rfl
  | cons entry rest ih =>
    simp only [firstNew, h entry.name]
    split
    · exact ih h
    · have hc : ∀ path, path ∈ entry.name :: seen ↔ path ∈ entry.name :: seen' := by
        intro path
        simp only [List.mem_cons, h path]
      rw [ih hc]

theorem firstNew_append (seen : List String) (front back : List DraftEntry) :
    firstNew seen (front ++ back) =
      firstNew seen front ++ firstNew (seen ++ front.map DraftEntry.name) back := by
  induction front generalizing seen with
  | nil => simp [firstNew]
  | cons entry rest ih =>
    simp only [List.cons_append, firstNew]
    split
    · rename_i hs
      rw [ih]
      congr 1
      refine firstNew_congr (fun path => ?_) back
      simp only [List.map_cons, List.mem_append, List.mem_cons]
      constructor
      · intro h
        rcases h with h | h
        · exact Or.inl h
        · exact Or.inr (Or.inr h)
      · intro h
        rcases h with h | rfl | h
        · exact Or.inl h
        · exact Or.inl hs
        · exact Or.inr h
    · rw [ih, List.cons_append]
      congr 2
      refine firstNew_congr (fun path => ?_) back
      simp only [List.map_cons, List.mem_append, List.mem_cons]
      exact or_left_comm

theorem mem_firstNew {seen : List String} {row : List DraftEntry} {d : DraftEntry} :
    d ∈ firstNew seen row ↔ d.name ∉ seen ∧ row.find? (fun other => other.name = d.name) = some d := by
  induction row generalizing seen with
  | nil => simp [firstNew]
  | cons first rest ih =>
    simp only [firstNew, List.find?_cons]
    by_cases hn : first.name = d.name
    · simp only [hn, decide_true]
      split
      · rename_i hs
        simp [ih, hs]
      · rename_i hs
        simp only [List.mem_cons, ih, not_true_eq_false, false_and, or_false, hs, not_false_eq_true, true_and,
          Option.some.injEq]
        exact eq_comm
    · simp only [hn, decide_false]
      split
      · exact ih
      · have hd : d ≠ first := fun e => hn (e ▸ rfl)
        simp [ih, hd, Ne.symm hn]

theorem nodup_firstNew (seen : List String) (row : List DraftEntry) :
    ((firstNew seen row).map DraftEntry.name).Nodup := by
  induction row generalizing seen with
  | nil => exact List.nodup_nil
  | cons first rest ih =>
    rw [firstNew]
    split
    · exact ih seen
    · refine List.nodup_cons.mpr ⟨fun hm => ?_, ih _⟩
      obtain ⟨d, hd, e⟩ := List.mem_map.mp hm
      exact (mem_firstNew.mp hd).1 (e ▸ List.mem_cons_self)

/-- An entry that no other has the name of is among the first occurrences. -/
theorem mem_firstNew_of_unique {row : List DraftEntry} {d : DraftEntry} (hd : d ∈ row)
    (hu : ∀ other ∈ row, other.name = d.name → other = d) : d ∈ firstNew [] row := by
  refine mem_firstNew.mpr ⟨List.not_mem_nil, ?_⟩
  rcases hf : row.find? (fun other => other.name = d.name) with _ | other
  · exact absurd (decide_eq_true rfl) (List.find?_eq_none.mp hf d hd)
  · have hn := List.find?_some hf
    obtain rfl := hu other (List.mem_of_find?_eq_some hf) (by simpa using hn)
    exact hf

/-- The first occurrences before one of them are those of the entries before it. -/
theorem firstNew_split {seen : List String} {row front back : List DraftEntry} {d : DraftEntry}
    (h : firstNew seen row = front ++ d :: back) :
    ∃ rowFront rowBack, row = rowFront ++ d :: rowBack ∧ front = firstNew seen rowFront := by
  induction row generalizing seen front with
  | nil => simp [firstNew] at h
  | cons first rest ih =>
    rw [firstNew] at h
    split at h
    · rename_i hs
      obtain ⟨rowFront, rowBack, rfl, rfl⟩ := ih h
      exact ⟨first :: rowFront, rowBack, rfl, by rw [firstNew, if_pos hs]⟩
    · rename_i hs
      cases front with
      | nil =>
        obtain ⟨rfl, -⟩ := List.cons.inj h
        exact ⟨[], rest, rfl, rfl⟩
      | cons taken front =>
        obtain ⟨rfl, hrest⟩ := List.cons.inj h
        obtain ⟨rowFront, rowBack, rfl, rfl⟩ := ih hrest
        exact ⟨first :: rowFront, rowBack, rfl, by rw [firstNew, if_neg hs]⟩

namespace Draft

/-- The drafts that additions lead to in which directory paths end in a slash and file paths do not. -/
inductive Reached : Draft → Prop
  | fresh : Reached {}
  | directory {d : Draft} (path : String) : EntryName.isDirectory path = true → Reached d →
      Reached (d.addDirectory path).1
  | file {d : Draft} (path text : String) : EntryName.isDirectory path = false → Reached d →
      Reached (d.addFile path text).1

/-- Every entry's name is a path that was seen. -/
def Named (d : Draft) : Prop := ∀ entry ∈ d.entries, entry.name ∈ d.seen

/-- `d'` is `d` with a row of entries added to it, each unless its path was seen. -/
structure Takes (d : Draft) (row : List DraftEntry) (d' : Draft) : Prop where
  named : d'.Named
  entries : d'.entries = d.entries ++ firstNew d.seen row
  seen : ∀ path, path ∈ d'.seen ↔ path ∈ d.seen ∨ path ∈ row.map DraftEntry.name

theorem Takes.refl {d : Draft} (hd : d.Named) : Takes d [] d :=
  ⟨hd, by simp [firstNew], by simp⟩

theorem Takes.trans {d d' d'' : Draft} {row row' : List DraftEntry} (h : Takes d row d')
    (h' : Takes d' row' d'') : Takes d (row ++ row') d'' := by
  refine ⟨h'.named, ?_, fun path => ?_⟩
  · have hs : firstNew d'.seen row' = firstNew (d.seen ++ row.map DraftEntry.name) row' :=
      firstNew_congr (fun path => by rw [h.seen, List.mem_append]) row'
    rw [h'.entries, h.entries, hs, firstNew_append, List.append_assoc]
  · rw [h'.seen, h.seen, List.map_append, List.mem_append, or_assoc]

/-! ## One addition -/

/-- A name that was not seen is free, so the format accepts it. -/
theorem append_takes {d : Draft} (hd : d.Named) (entry : DraftEntry) (hn : entry.name ∉ d.seen)
    (summary : WriteSummary) :
    ∃ d', append { d with seen := entry.name :: d.seen } entry summary = (d', .ok true) ∧
      Takes d [entry] d' := by
  have hfree : ¬ d.entries.any (fun other => other.name == entry.name) = true := by
    intro h
    obtain ⟨other, hm, he⟩ := List.any_eq_true.mp h
    exact hn (beq_iff_eq.mp he ▸ hd other hm)
  refine ⟨_, if_neg hfree, ?_, ?_, fun path => ?_⟩
  · intro other ho
    rcases List.mem_append.mp ho with ho | ho
    · exact List.mem_cons_of_mem _ (hd other ho)
    · rw [List.mem_singleton.mp ho]; exact List.mem_cons_self
  · simp [firstNew, hn]
  · simp [or_comm]

theorem takes_of_seen {d : Draft} (hd : d.Named) {entry : DraftEntry} (hs : entry.name ∈ d.seen) :
    Takes d [entry] d :=
  ⟨hd, by simp [firstNew, hs], fun path => by simpa using fun h : path = entry.name => h ▸ hs⟩

theorem directoryName_of_slash {path : String} (hp : EntryName.isDirectory path = true) :
    directoryName path = path := by
  simp only [directoryName, beq_iff_eq.mp hp]

/-- Adding a directory whose path ends in a slash succeeds. -/
theorem addDirectory_takes {d : Draft} (hd : d.Named) {path : String}
    (hp : EntryName.isDirectory path = true) :
    ∃ d' new, d.addDirectory path = (d', .ok new) ∧ Takes d [⟨path, true, ""⟩] d' := by
  unfold addDirectory contains
  by_cases hs : path ∈ d.seen
  · rw [if_pos (List.contains_iff_mem.mpr hs)]
    exact ⟨d, false, rfl, takes_of_seen hd hs⟩
  · rw [if_neg fun h => hs (List.contains_iff_mem.mp h), directoryName_of_slash hp]
    obtain ⟨d', h, ht⟩ := append_takes hd ⟨path, true, ""⟩ hs _
    exact ⟨d', true, h, ht⟩

/-- Adding a file succeeds. -/
theorem addFile_takes {d : Draft} (hd : d.Named) (path text : String) :
    ∃ d' new, d.addFile path text = (d', .ok new) ∧ Takes d [⟨path, false, text⟩] d' := by
  unfold addFile contains
  by_cases hs : path ∈ d.seen
  · rw [if_pos (List.contains_iff_mem.mpr hs)]
    exact ⟨d, false, rfl, takes_of_seen hd hs⟩
  · rw [if_neg fun h => hs (List.contains_iff_mem.mp h)]
    obtain ⟨d', h, ht⟩ := append_takes hd ⟨path, false, text⟩ hs _
    exact ⟨d', true, h, ht⟩

/-! ## Every run of additions -/

theorem named_fresh : Named {} := fun _ h => absurd h List.not_mem_nil

theorem Reached.named {d : Draft} (h : Reached d) : d.Named := by
  induction h with
  | fresh => exact named_fresh
  | directory path hp _ ih =>
    obtain ⟨d', new, h, ht⟩ := addDirectory_takes ih hp
    rw [h]; exact ht.named
  | file path text _ _ ih =>
    obtain ⟨d', new, h, ht⟩ := addFile_takes ih path text
    rw [h]; exact ht.named

end Draft

end SourceJar.Archive
