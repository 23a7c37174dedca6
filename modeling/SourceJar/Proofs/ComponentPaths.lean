import SourceJar.Proofs.MakingAgain

/-!
Paths and rows of components.

One component more at the end of a path is one more at the end of its row (`components_join`), and the path that a row
spells has that row (`components_ofComponents`), so the directories that are made for a path are spelled by the front
parts of its row, and by nothing else (`makeDirectories_along`).
-/

namespace SourceJar

open FileSystem

namespace Path

/-- A component that can follow others: it is spelled by a piece without a slash. -/
structure IsInner (c : Component) : Prop where
  component_eq : component? c.bytes = some c
  no_slash : slash ∉ c.bytes

theorem IsInner.ne_nil {c : Component} (h : IsInner c) : c.bytes ≠ [] := by
  intro e
  have he := h.component_eq
  rw [e] at he
  cases he

theorem IsInner.isSegment {c : Component} (h : IsInner c) : IsSegment c.bytes := ⟨h.ne_nil, h.no_slash⟩

theorem isInner_name {name : Bytes} (h : IsPlain name) : IsInner (.name name) := by
  refine ⟨?_, h.no_slash⟩
  rw [Component.bytes, component?, if_neg (not_or.mpr ⟨h.ne_nil, h.ne_here⟩), if_neg h.ne_parent]

/-- What follows the first component of a row can follow others. -/
theorem isInner_of_names {c : Component} (h : c.names ≠ []) (hp : ∀ name, c = .name name → IsPlain name) : IsInner c := by
  cases c with
  | root => exact absurd rfl h
  | here => exact absurd rfl h
  | parent => exact ⟨rfl, by decide⟩
  | name bytes => exact isInner_name (hp bytes rfl)

theorem components_of_pieces {p : Path} {first : Bytes} {rest : List Bytes}
    (h : Split.splitOn slash p.bytes = first :: rest) : p.components =
      (if first = [] then if rest = [] then [] else [.root]
       else if first = [dot] then [.here]
       else (component? first).toList) ++ rest.filterMap component? := by
  rw [components, h]

theorem components_ne_nil {p : Path} (h : p.bytes ≠ []) : p.components ≠ [] := by
  obtain ⟨first, rest, hs⟩ := List.exists_cons_of_ne_nil (Split.splitOn_ne_nil slash p.bytes)
  have hb := (bytes_of_splitOn hs).1
  rw [components_of_pieces hs]
  by_cases hn : first = []
  · have hr : rest ≠ [] := by
      rintro rfl
      rw [hn] at hb
      exact h hb
    simp [hn, hr]
  · by_cases hh : first = [dot]
    · simp [hh]
    · obtain ⟨c, hc⟩ := exists_component? hn hh
      simp [hn, hh, hc]

/-- One component more at the end of a path. -/
theorem components_join (base : Path) {c : Component} (h : IsInner c) :
    (base.join ⟨c.bytes⟩).components = base.components ++ [c] := by
  have hlast : Split.splitOn slash c.bytes = [c.bytes] := Split.splitOn_of_notMem h.no_slash
  have hinner : [c.bytes].filterMap component? = [c] := by simp [h.component_eq]
  rcases join_bytes base (isAbsolute_segment h.isSegment) with ⟨e, hb | hb⟩ | ⟨e, hne⟩
  · have hhere : c.bytes ≠ [dot] := by
      intro e
      have he := h.component_eq
      rw [e] at he
      cases he
    have hbase : Split.splitOn slash base.bytes = [[]] := by
      rw [hb]
      rfl
    have hjoin : Split.splitOn slash (base.join ⟨c.bytes⟩).bytes = [c.bytes] := by
      rw [e, hb, List.nil_append, hlast]
    rw [components_of_pieces hjoin, components_of_pieces hbase]
    simp [h.ne_nil, hhere, h.component_eq]
  · -- the slash is there already
    obtain ⟨front, hf⟩ := List.getLast?_eq_some_iff.mp hb
    obtain ⟨first, rest, hs⟩ := List.exists_cons_of_ne_nil (Split.splitOn_ne_nil slash front)
    have hbase : Split.splitOn slash base.bytes = first :: (rest ++ [[]]) := by
      rw [hf, Split.splitOn_append_cons, hs]
      rfl
    have hjoin : Split.splitOn slash (base.join ⟨c.bytes⟩).bytes = first :: (rest ++ [c.bytes]) := by
      rw [e, hf, List.append_assoc, List.singleton_append, Split.splitOn_append_cons, hs, hlast]
      rfl
    rw [components_of_pieces hjoin, components_of_pieces hbase, List.filterMap_append, List.filterMap_append, hinner]
    simp [component?]
  · obtain ⟨first, rest, hs⟩ := List.exists_cons_of_ne_nil (Split.splitOn_ne_nil slash base.bytes)
    have hjoin : Split.splitOn slash (base.join ⟨c.bytes⟩).bytes = first :: (rest ++ [c.bytes]) := by
      rw [e, Split.splitOn_append_cons, hs, hlast]
      rfl
    have hempty : first = [] → rest ≠ [] := by
      rintro rfl rfl
      exact hne (bytes_of_splitOn hs).1
    rw [components_of_pieces hjoin, components_of_pieces hs, List.filterMap_append, hinner]
    by_cases hn : first = []
    · simp [hn, hempty hn]
    · simp [hn]

/-! ## Rows that spell a path -/

/-- The components after the first can follow others. -/
theorem isInner_last {components : List Component} {c : Component} (hrow : IsRow (components ++ [c]))
    (hc : components ≠ []) : IsInner c := by
  obtain ⟨first, rest, rfl⟩ := List.exists_cons_of_ne_nil hc
  exact isInner_of_names (hrow.inner c (by simp)) fun name e => hrow.plain name (by simp [e])

/-- The path that a row spells ends in a slash only if it is the root. -/
theorem ofComponents_getLast? {components : List Component} (hrow : IsRow components) (hroot : components ≠ [.root]) :
    (ofComponents components).bytes.getLast? ≠ some slash := by
  rcases List.eq_nil_or_concat components with rfl | ⟨front, last, rfl⟩
  · exact fun h => by cases h
  · rw [List.concat_eq_append] at hrow hroot ⊢
    have hslash : slash ∉ last.bytes := by
      cases last with
      | name bytes => exact (hrow.plain bytes (by simp)).no_slash
      | _ => decide
    cases front with
    | nil =>
      rw [List.nil_append, ofComponents_cons fun e => absurd (by rw [e]; rfl) hroot]
      simpa using fun h => hslash (List.mem_of_getLast? h)
    | cons first rest =>
      have hne := (isInner_last hrow (List.cons_ne_nil _ _)).ne_nil
      rw [List.cons_append, ofComponents_cons fun _ => by simp, List.flatMap_append, List.flatMap_singleton,
        ← List.append_assoc, List.append_cons, List.getLast?_append_of_ne_nil _ hne]
      exact fun h => hslash (List.mem_of_getLast? h)

/-- One component more at the end of a row is one more at the end of the path that it spells. -/
theorem ofComponents_concat {components : List Component} {c : Component} (hrow : IsRow (components ++ [c]))
    (hc : components ≠ []) : ofComponents (components ++ [c]) = (ofComponents components).join ⟨c.bytes⟩ := by
  have hrel := isAbsolute_segment (isInner_last hrow hc).isSegment
  have hbytes : (ofComponents (components ++ [c])).bytes = ((ofComponents components).join ⟨c.bytes⟩).bytes := by
    obtain ⟨first, rest, rfl⟩ := List.exists_cons_of_ne_nil hc
    have hlong : (ofComponents (first :: (rest ++ [c]))).bytes = _ := ofComponents_cons fun _ => by simp
    rw [List.cons_append, hlong, List.flatMap_append, List.flatMap_singleton, ← List.append_assoc]
    by_cases hroot : first :: rest = [.root]
    · obtain ⟨rfl, rfl⟩ := List.cons.inj hroot
      rw [Path.join, if_neg (by rw [hrel]; decide), if_pos (.inr rfl)]
      rfl
    · have hshort : (ofComponents (first :: rest)).bytes = _ :=
        ofComponents_cons fun hr hn => hroot (by rw [hr, hn])
      have hslash := ofComponents_getLast? hrow.above hroot
      have hne := ofComponents_ne_nil hrow.above.plain hc
      rcases join_bytes (ofComponents (first :: rest)) hrel with ⟨-, hb | hb⟩ | ⟨e, -⟩
      · exact absurd hb hne
      · exact absurd hb hslash
      · rw [e, hshort]
  exact congrArg Path.mk hbytes

/-- The path that a row spells has that row. -/
theorem components_ofComponents {components : List Component} (hrow : IsRow components) :
    (ofComponents components).components = components := by
  induction components using List.reverseRecOn with
  | nil => rfl
  | append_singleton front last ih =>
    by_cases hf : front = []
    · subst hf
      rw [List.nil_append] at hrow ⊢
      cases last with
      | name bytes =>
        have hplain := hrow.plain bytes List.mem_cons_self
        have hpath : ofComponents [.name bytes] = (Path.mk []).join ⟨bytes⟩ := by
          simp [ofComponents, Component.bytes, Path.join, isAbsolute_segment hplain.toIsSegment]
        rw [hpath]
        exact components_join ⟨[]⟩ (isInner_name hplain)
      | _ => rfl
    · rw [ofComponents_concat hrow hf, components_join _ (isInner_last hrow hf), ih hrow.above]

end Path

namespace FileSystem

/-! ## Making the directories of a row -/

section Making

variable {motive : FileSystem → Prop}

/-- What making each directory along a row preserves, making the directory that the row spells preserves. -/
theorem makeDirectories_along {components : List Path.Component} (hrow : IsRow components)
    (hp : ∀ front, front ≠ [] → front <+: components → ∀ fs fs', motive fs →
      fs.makeDirectory (Path.ofComponents front) = .ok fs' → motive fs') {fs : FileSystem} (h : motive fs) :
    motive (fs.makeDirectories (Path.ofComponents components)).1 := by
  unfold makeDirectories
  split
  · exact h
  · rename_i hne
    have hc : components ≠ [] := fun e => hne (by rw [e]; rfl)
    rw [Path.components_ofComponents hrow]
    refine makeDirectoryAfter_keeps (hp _ hc List.prefix_rfl) (fun fs h => ?_) h
    refine makeComponents_keeps (fun front hf hfront => hp front hf (hfront.trans ?_)) h
    rw [List.reverse_drop, List.reverse_reverse]
    exact List.take_prefix _ _

end Making

end FileSystem

end SourceJar
