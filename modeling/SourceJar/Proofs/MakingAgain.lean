import SourceJar.Proofs.Outputs

/-!
Making directories once more.

Directories that were made are there, so making them again changes nothing and succeeds
(`makeDirectories_of_isDirectory`). And if they could not be made, they cannot be made in what the attempt has left
either (`makeDirectories_fails_again`): a path that leads somewhere, or to a free spot, leads through the directory above
it, by whatever dots and slashes it is written (`isDirectory_above`).
-/

namespace SourceJar

open FileSystem

/-! ## The moves along a path -/

namespace Path

/-- The names that a component stands for, other than the one for staying where one is. -/
def Component.names : Component → List Bytes
  | .root => []
  | .here => []
  | .parent => [[dot, dot]]
  | .name bytes => [bytes]

end Path

namespace FileSystem

/-- The names that a walk moves along: those other than `.`. -/
def moves (names : List Bytes) : List Bytes := names.filter (· ≠ [Path.dot])

theorem moves_append (names names' : List Bytes) : moves (names ++ names') = moves names ++ moves names' :=
  List.filter_append ..

theorem moves_pieces (pieces : List Bytes) :
    moves (pieces.filter (· ≠ [])) = (pieces.filterMap Path.component?).flatMap Path.Component.names := by
  induction pieces with
  | nil => rfl
  | cons piece rest ih =>
    rw [List.filterMap_cons, Path.component?]
    by_cases hn : piece = []
    · simpa [moves, hn] using ih
    · by_cases hh : piece = [Path.dot]
      · simpa [moves, hh] using ih
      · by_cases hp : piece = [Path.dot, Path.dot]
        · simpa [moves, hp, Path.Component.names] using ih
        · simpa [moves, hn, hh, hp, Path.Component.names] using ih

/-- A walk along a path moves along its components. -/
theorem moves_namesOf (p : Path) : moves (namesOf p) = p.components.flatMap Path.Component.names := by
  unfold namesOf Path.components
  cases Split.splitOn Path.slash p.bytes with
  | nil => rfl
  | cons first rest =>
    simp only [List.flatMap_append]
    rw [moves_pieces, List.filterMap_cons]
    by_cases hn : first = []
    · by_cases hr : rest = [] <;> simp [hn, hr, Path.Component.names, Path.component?]
    · by_cases hh : first = [Path.dot]
      · simp [hh, Path.Component.names, Path.component?]
      · cases Path.component? first <;> simp [hn, hh]

/-! ## Paths spelled by components -/

/-- The bytes of a path are its pieces with slashes between them. -/
theorem bytes_of_splitOn {bytes first : Bytes} {rest : List Bytes}
    (h : Split.splitOn Path.slash bytes = first :: rest) :
    bytes = first ++ rest.flatMap (Path.slash :: ·) ∧ Path.slash ∉ first := by
  refine ⟨?_, Split.notMem_of_mem_splitOn (by rw [h]; exact List.mem_cons_self)⟩
  rw [← Split.intercalate_splitOn Path.slash bytes, h]
  clear h
  induction rest generalizing first with
  | nil => simp [List.intercalate]
  | cons second rest ih =>
    rw [List.intercalate_cons_cons, @ih second, List.flatMap_cons, List.append_assoc]
    rfl

/-- A component that a piece stands for is spelled by the piece, and is a move. -/
theorem component?_eq_some {piece : Bytes} {c : Path.Component} (h : Path.component? piece = some c) :
    c.bytes = piece ∧ c ≠ .root ∧ c.names ≠ [] := by
  unfold Path.component? at h
  split at h
  · cases h
  · split at h <;> cases h
    · exact ⟨Eq.symm ‹_›, Path.Component.noConfusion, List.cons_ne_nil _ _⟩
    · exact ⟨rfl, Path.Component.noConfusion, List.cons_ne_nil _ _⟩

/-- A piece that is neither empty nor `.` stands for a component. -/
theorem exists_component? {piece : Bytes} (hn : piece ≠ []) (hh : piece ≠ [Path.dot]) :
    ∃ c, Path.component? piece = some c := by
  unfold Path.component?
  by_cases hp : piece = [Path.dot, Path.dot] <;> simp [hn, hh, hp]

theorem Component.bytes_head {c : Path.Component} (h : ∀ name, c = .name name → IsPlain name) (hr : c ≠ .root) :
    ∃ b bs, c.bytes = b :: bs ∧ b ≠ Path.slash := by
  cases c with
  | root => exact absurd rfl hr
  | here => exact ⟨Path.dot, [], rfl, by decide⟩
  | parent => exact ⟨Path.dot, [Path.dot], rfl, by decide⟩
  | name bytes =>
    have hplain := h bytes rfl
    obtain ⟨b, bs, hb⟩ := List.exists_cons_of_ne_nil hplain.ne_nil
    exact ⟨b, bs, hb, fun e => hplain.no_slash (by rw [hb, e]; exact List.mem_cons_self)⟩

/-- A path starts at the root exactly if its first component is the root. -/
theorem isAbsolute_iff (p : Path) : p.isAbsolute = true ↔ p.components.head? = some .root := by
  obtain ⟨first, rest, hs⟩ := List.exists_cons_of_ne_nil (Split.splitOn_ne_nil Path.slash p.bytes)
  obtain ⟨hb, hslash⟩ := bytes_of_splitOn hs
  rw [Path.isAbsolute, beq_iff_eq, hb, Path.components, hs]
  simp only
  by_cases hn : first = []
  · cases rest with
    | nil => simp [hn]
    | cons second rest => simp [hn]
  · obtain ⟨b, bs, hfirst⟩ := List.exists_cons_of_ne_nil hn
    have hne : b ≠ Path.slash := fun e => hslash (by rw [hfirst, e]; exact List.mem_cons_self)
    rw [if_neg hn]
    by_cases hh : first = [Path.dot]
    · simp [hh, Path.slash, Path.dot]
    · obtain ⟨c, hc⟩ := exists_component? hn hh
      rw [if_neg hh, hc]
      simp [hfirst, hne, (component?_eq_some hc).2.1]

theorem moves_component {c : Path.Component} (h : ∀ name, c = .name name → IsPlain name) :
    moves (namesOf ⟨c.bytes⟩) = c.names := by
  cases c with
  | name bytes =>
    have hplain := h bytes rfl
    rw [Path.Component.bytes, namesOf_segment hplain.toIsSegment]
    simp [moves, hplain.ne_here, Path.Component.names]
  | _ => rfl

/-- A path whose pieces are components moves along them. -/
theorem moves_row {c : Path.Component} {rest : List Path.Component}
    (h : ∀ name, Path.Component.name name ∈ c :: rest → IsPlain name) :
    moves (namesOf ⟨c.bytes ++ rest.flatMap fun d => Path.slash :: d.bytes⟩) =
      (c :: rest).flatMap Path.Component.names := by
  induction rest generalizing c with
  | nil => simpa using moves_component fun name e => h name (by simp [e])
  | cons d rest ih =>
    rw [List.flatMap_cons, List.cons_append, namesOf_of_bytes, moves_append,
      moves_component fun name e => h name (by simp [e]), ih fun name hm => h name (List.mem_cons_of_mem _ hm)]
    rfl

theorem ofComponents_cons {c : Path.Component} {rest : List Path.Component} (h : c = .root → rest ≠ []) :
    (Path.ofComponents (c :: rest)).bytes = c.bytes ++ rest.flatMap fun d => Path.slash :: d.bytes := by
  unfold Path.ofComponents
  split
  · cases ‹_ = []›
  · rename_i e
    cases e
    exact absurd rfl (h rfl)
  · rename_i e
    cases e
    rfl

section Spelling

variable {components : List Path.Component} (h : ∀ name, Path.Component.name name ∈ components → IsPlain name)

include h

theorem moves_ofComponents :
    moves (namesOf (Path.ofComponents components)) = components.flatMap Path.Component.names := by
  unfold Path.ofComponents
  split
  · rfl
  · rfl
  · exact moves_row h

theorem isAbsolute_ofComponents :
    (Path.ofComponents components).isAbsolute = true ↔ components.head? = some .root := by
  unfold Path.ofComponents
  split
  · simp [Path.isAbsolute]
  · simp [Path.isAbsolute]
  · rename_i c rest hc
    by_cases hr : c = .root
    · subst hr
      obtain ⟨d, more, rfl⟩ := List.exists_cons_of_ne_nil (hc rfl)
      simp [Path.isAbsolute, Path.Component.bytes]
    · obtain ⟨b, bs, hb, hne⟩ := Component.bytes_head (fun name e => h name (by simp [e])) hr
      simp [Path.isAbsolute, hb, hne, hr]

/-- Components spell something. -/
theorem ofComponents_ne_nil (hc : components ≠ []) : (Path.ofComponents components).bytes ≠ [] := by
  unfold Path.ofComponents
  split
  · exact absurd rfl hc
  · exact List.cons_ne_nil _ _
  · rename_i c rest hroot
    by_cases hr : c = .root
    · obtain ⟨d, more, rfl⟩ := List.exists_cons_of_ne_nil (hroot hr)
      simp
    · obtain ⟨b, bs, hb, -⟩ := Component.bytes_head (fun name e => h name (by simp [e])) hr
      simp [hb]

end Spelling

/-- All but the last components spell a part of what the components spell. -/
theorem bytes_above_isPrefixOf {components : List Path.Component} (hc : components ≠ []) (last : Path.Component) :
    (Path.ofComponents components).bytes <+: (Path.ofComponents (components ++ [last])).bytes := by
  obtain ⟨c, rest, rfl⟩ := List.exists_cons_of_ne_nil hc
  have hlong : (Path.ofComponents (c :: (rest ++ [last]))).bytes = _ := ofComponents_cons fun _ => by simp
  rw [List.cons_append, hlong]
  by_cases h : c = .root ∧ rest = []
  · obtain ⟨rfl, rfl⟩ := h
    simp [Path.ofComponents, Path.Component.bytes]
  · rw [ofComponents_cons fun hr hn => h ⟨hr, hn⟩, List.flatMap_append, ← List.append_assoc]
    exact List.prefix_append _ _

theorem components_sublist (pieces : List Bytes) :
    ((pieces.filterMap Path.component?).flatMap fun d => Path.slash :: d.bytes).Sublist
      (pieces.flatMap (Path.slash :: ·)) := by
  induction pieces with
  | nil => exact .slnil
  | cons piece rest ih =>
    rw [List.filterMap_cons]
    cases hc : Path.component? piece with
    | none => exact ih.trans (List.sublist_append_right _ _)
    | some c =>
      rw [List.flatMap_cons, List.flatMap_cons, (component?_eq_some hc).1]
      exact (List.Sublist.refl _).append ih

/-- The components of a path spell it without some of its bytes. -/
theorem ofComponents_sublist (p : Path) : (Path.ofComponents p.components).bytes.Sublist p.bytes := by
  obtain ⟨first, rest, hs⟩ := List.exists_cons_of_ne_nil (Split.splitOn_ne_nil Path.slash p.bytes)
  obtain ⟨hb, -⟩ := bytes_of_splitOn hs
  have hrest := components_sublist rest
  rw [hb, Path.components, hs]
  simp only
  by_cases hn : first = []
  · cases rest with
    | nil => simp [hn, Path.ofComponents]
    | cons second rest =>
      rw [if_pos hn, if_neg (List.cons_ne_nil _ _), List.singleton_append, hn]
      by_cases he : (second :: rest).filterMap Path.component? = []
      · rw [he]
        simp [Path.ofComponents]
      · rw [ofComponents_cons fun _ => he]
        exact hrest
  · rw [if_neg hn]
    by_cases hh : first = [Path.dot]
    · rw [if_pos hh, hh, List.singleton_append, ofComponents_cons fun h => by cases h]
      exact (List.Sublist.refl _).append hrest
    · obtain ⟨c, hc⟩ := exists_component? hn hh
      obtain ⟨hbytes, hr, -⟩ := component?_eq_some hc
      rw [if_neg hh, hc, Option.toList_some, List.singleton_append, ofComponents_cons fun h => absurd h hr, hbytes]
      exact (List.Sublist.refl _).append hrest

/-! ## The directory above -/

/-- A row of components as a path has it: the root and the start of a relative path come first. -/
structure IsRow (components : List Path.Component) : Prop where
  plain : ∀ name, Path.Component.name name ∈ components → IsPlain name
  inner : ∀ c ∈ components.tail, c.names ≠ []

/-- A path is written with the components of a row, but for slashes and dots that do not count. -/
structure Spells (p : Path) (components : List Path.Component) : Prop where
  moves_eq : moves (namesOf p) = components.flatMap Path.Component.names
  absolute : p.isAbsolute = true ↔ components.head? = some .root
  sublist : (Path.ofComponents components).bytes.Sublist p.bytes

theorem isRow_components (p : Path) : IsRow p.components where
  plain _ hm := Path.isPlain_of_mem_components hm
  inner c hc := by
    obtain ⟨first, rest, hs⟩ := List.exists_cons_of_ne_nil (Split.splitOn_ne_nil Path.slash p.bytes)
    have hm : c ∈ rest.filterMap Path.component? := by
      have hlater : ∀ front : List Path.Component, front.length ≤ 1 →
          c ∈ (front ++ rest.filterMap Path.component?).tail → c ∈ rest.filterMap Path.component? := by
        intro front hshort hm
        match front with
        | [] => exact List.mem_of_mem_tail hm
        | [_] => exact hm
        | _ :: _ :: _ => simp at hshort
      rw [Path.components, hs] at hc
      refine hlater _ ?_ hc
      split
      · split <;> simp
      · split
        · simp
        · cases Path.component? first <;> simp
    obtain ⟨piece, -, e⟩ := List.mem_filterMap.mp hm
    exact (component?_eq_some e).2.2

theorem IsRow.above {components : List Path.Component} {last : Path.Component} (h : IsRow (components ++ [last])) :
    IsRow components where
  plain name hm := h.plain name (List.mem_append_left _ hm)
  inner c hc := by
    refine h.inner c ?_
    cases components with
    | nil => cases hc
    | cons first rest => exact List.mem_append_left _ hc

theorem spells_components (p : Path) : Spells p p.components :=
  ⟨moves_namesOf p, isAbsolute_iff p, ofComponents_sublist p⟩

theorem IsRow.spells {components : List Path.Component} (h : IsRow components) :
    Spells (Path.ofComponents components) components :=
  ⟨moves_ofComponents h.plain, isAbsolute_ofComponents h.plain, .refl _⟩

theorem Leads.stays {fs : FileSystem} {follow slash : Bool} {links : Nat} {here : Place} {dots rest : List Bytes}
    {spot : Spot} (hd : ∀ name ∈ dots, ¬decide (name ≠ [Path.dot]) = true)
    (h : Leads fs follow links here rest slash spot) : Leads fs follow links here (dots ++ rest) slash spot := by
  induction dots with
  | nil => exact h
  | cons name dots ih =>
    obtain rfl : name = [Path.dot] := by simpa using hd name List.mem_cons_self
    exact .stay (ih fun other ho => hd other (List.mem_cons_of_mem _ ho))

/-- A walk that comes to a directory does so by its moves. -/
theorem Leads.of_moves {fs : FileSystem} {slash : Bool} {links : Nat} {here : Place} {names names' : List Bytes}
    {directory : Place} (h : Leads fs true links here names slash (.taken directory .directory))
    (hm : moves names' = moves names) (slash' : Bool) :
    Leads fs true links here names' slash' (.taken directory .directory) := by
  generalize hs : Spot.taken directory .directory = spot at h ⊢
  -- a move other than `.` comes after some dots
  have hcons : ∀ {name : Bytes} {rest names' : List Bytes}, name ≠ [Path.dot] → moves names' = moves (name :: rest) →
      ∃ dots rest', names' = dots ++ name :: rest' ∧ (∀ other ∈ dots, ¬decide (other ≠ [Path.dot]) = true) ∧
        moves rest' = moves rest := by
    intro name rest names' hne e
    rw [moves, moves, List.filter_cons_of_pos (by simpa using hne)] at e
    obtain ⟨dots, rest', e, hdots, -, hrest⟩ := List.filter_eq_cons_iff.mp e
    exact ⟨dots, rest', e, hdots, hrest⟩
  induction h generalizing names' slash' with
  | here links here slash =>
    have hend : Leads fs true links here [] slash' (.taken here .directory) := .here links here slash'
    have hdots := hend.stays (List.filter_eq_nil_iff.mp hm)
    rwa [List.append_nil] at hdots
  | stay _ ih => exact ih (by simpa [moves] using hm) slash' hs
  | up _ ih =>
    obtain ⟨dots, rest', rfl, hdots, hrest⟩ := hcons (by decide) hm
    exact .stays hdots (.up (ih hrest slash' hs))
  | down hn hg _ ih =>
    obtain ⟨dots, rest', rfl, hdots, hrest⟩ := hcons hn.ne_here hm
    exact .stays hdots (.down hn hg (ih hrest slash' hs))
  | along hn hg _ _ ih =>
    obtain ⟨dots, rest', rfl, hdots, hrest⟩ := hcons hn.ne_here hm
    exact .stays hdots (.along hn hg (by simp) (ih (by rw [moves_append, moves_append, hrest]) _ hs))
  | link _ _ hf => exact absurd rfl hf
  | node _ _ hd => cases hs; exact absurd rfl hd
  | free => cases hs

/-- A path that leads to something, or to a free spot, leads through the directory that all but the last of its
components spell. -/
theorem isDirectory_above {fs : FileSystem} {p : Path} {above : List Path.Component} {last : Path.Component}
    (hrow : IsRow (above ++ [last])) (hp : Spells p (above ++ [last])) (ha : above ≠ []) {follow : Bool} {spot : Spot}
    (h : fs.locate follow p = .ok spot) : fs.isDirectory (Path.ofComponents above) = true := by
  obtain ⟨haccepts, hleads⟩ := locate_eq_ok_iff.mp h
  have habove := hrow.above.spells
  have hsub := (bytes_above_isPrefixOf ha last).sublist.trans hp.sublist
  have hq : Accepts (Path.ofComponents above) := by
    refine ⟨?_, ?_, hsub.length_le.trans haccepts.length_le⟩
    · have hnul := haccepts.no_nul
      simp only [List.contains_eq_mem, decide_eq_false_iff_not] at hnul ⊢
      exact fun hm => hnul (hsub.subset hm)
    · exact ofComponents_ne_nil hrow.above.plain ha
  have hlast : last.names ≠ [] := by
    obtain ⟨c, rest, rfl⟩ := List.exists_cons_of_ne_nil ha
    exact hrow.inner last (by simp)
  have hmoves := hp.moves_eq
  rw [List.flatMap_append, List.flatMap_singleton] at hmoves
  obtain ⟨names, more, hnames, hfront, hback⟩ := List.filter_eq_append_iff.mp hmoves
  have hmore : more ≠ [] := by
    rintro rfl
    exact hlast hback.symm
  rw [hnames] at hleads
  obtain ⟨directory, -, hdirectory, -⟩ := hleads.split hmore
  refine isDirectory_iff.mpr ⟨directory, locate_eq_ok_iff.mpr ⟨hq, ?_⟩⟩
  have hstart : fs.startOf (Path.ofComponents above) = fs.startOf p := by
    have hhead : (above ++ [last]).head? = above.head? := by
      obtain ⟨c, rest, rfl⟩ := List.exists_cons_of_ne_nil ha
      rfl
    have : (Path.ofComponents above).isAbsolute = p.isAbsolute := by
      rw [Bool.eq_iff_iff, habove.absolute, hp.absolute, hhead]
    rw [startOf, this, ← startOf]
  rw [hstart]
  exact (hdirectory false).of_moves (habove.moves_eq.trans hfront.symm) _

/-! ## Making directories again -/

/-- A walk that comes to a directory finds something there also if a link at the end is not followed. -/
theorem Leads.unfollowed {fs : FileSystem} {slash : Bool} {links : Nat} {here : Place} {names : List Bytes}
    {directory : Place} (h : Leads fs true links here names slash (.taken directory .directory)) :
    ∃ place node, Leads fs false links here names slash (.taken place node) := by
  generalize hs : Spot.taken directory .directory = spot at h
  induction h with
  | here => exact ⟨_, _, .here _ _ _⟩
  | stay _ ih =>
    obtain ⟨place, node, ih⟩ := ih hs
    exact ⟨place, node, .stay ih⟩
  | up _ ih =>
    obtain ⟨place, node, ih⟩ := ih hs
    exact ⟨place, node, .up ih⟩
  | down hn hg _ ih =>
    obtain ⟨place, node, ih⟩ := ih hs
    exact ⟨place, node, .down hn hg ih⟩
  | @along links here name rest slash spot target hn hg _ _ ih =>
    by_cases hlast : rest = [] ∧ slash = false
    · obtain ⟨rfl, rfl⟩ := hlast
      exact ⟨_, _, .link hn hg Bool.false_ne_true Bool.false_ne_true⟩
    · obtain ⟨place, node, ih⟩ := ih hs
      exact ⟨place, node, .along hn hg (by simpa using hlast) ih⟩
  | link _ _ hf => exact absurd rfl hf
  | node _ _ hd => cases hs; exact absurd rfl hd
  | free => cases hs

theorem makeDirectory_of_isDirectory {fs : FileSystem} {p : Path} (h : fs.isDirectory p = true) :
    fs.makeDirectory p = .error (.os .alreadyExists) := by
  obtain ⟨directory, hl⟩ := isDirectory_iff.mp h
  obtain ⟨ha, hleads⟩ := locate_eq_ok_iff.mp hl
  obtain ⟨place, node, hleads'⟩ := hleads.unfollowed
  rw [makeDirectory, locate_eq_ok_iff.mpr ⟨ha, hleads'⟩]
  rfl

/-- A directory that is there already will do, whatever would be done for it. -/
theorem makeDirectoryAfter_of_isDirectory {fs : FileSystem} {p : Path} (h : fs.isDirectory p = true)
    (above : FileSystem → FileSystem × Except IoFault Unit) : makeDirectoryAfter above p fs = (fs, .ok ()) := by
  simp only [makeDirectoryAfter, makeDirectory_of_isDirectory h, h, if_true]

/-- Making directories that are there changes nothing. -/
theorem makeDirectories_of_isDirectory {fs : FileSystem} {p : Path} (h : p.bytes = [] ∨ fs.isDirectory p = true) :
    fs.makeDirectories p = (fs, .ok ()) := by
  unfold makeDirectories
  split
  · rfl
  · exact makeDirectoryAfter_of_isDirectory (h.resolve_left ‹_›) _

/-- What making the directories above must do for it to be known that a failure repeats itself: it succeeds again after
it has succeeded, fails again after it has failed, and finds nothing to do where the directory itself can be made or is
there. -/
structure Repeats (above : FileSystem → FileSystem × Except IoFault Unit) (p : Path) : Prop where
  wellFormed : ∀ fs, fs.WellFormed → (above fs).1.WellFormed
  done : ∀ fs fs', fs.WellFormed → above fs = (fs', .ok ()) → above fs' = (fs', .ok ())
  failed : ∀ fs fs' e, fs.WellFormed → above fs = (fs', .error e) → ∃ e', (above fs').2 = .error e'
  needed : ∀ fs follow spot, fs.locate follow p = .ok spot → above fs = (fs, .ok ())

section Again

variable {above : FileSystem → FileSystem × Except IoFault Unit} {p : Path} (ha : Repeats above p) {fs fs' : FileSystem}
  {e : IoFault}

include ha in
/-- Where the directories above cannot be made, nor can the directory. -/
theorem Repeats.blocked (h : (above fs).2 = .error e) : ∃ e', (makeDirectoryAfter above p fs).2 = .error e' := by
  have hnone : ∀ follow spot, fs.locate follow p ≠ .ok spot := fun follow spot hl => by
    rw [ha.needed fs follow spot hl] at h
    cases h
  have hnot : ¬fs.isDirectory p = true := fun hd => by
    obtain ⟨place, hl⟩ := isDirectory_iff.mp hd
    exact hnone _ _ hl
  simp only [makeDirectoryAfter, if_neg hnot]
  cases hm : fs.makeDirectory p with
  | ok fs' =>
    obtain ⟨place, slash, hl, -⟩ := makeDirectory_eq_ok hm
    exact absurd hl (hnone _ _)
  | error e' =>
    split
    · cases ‹Except.error e' = Except.ok _›
    · rcases hup : above fs with ⟨fs', r⟩
      rw [hup] at h
      simp only at h
      subst h
      exact ⟨e, rfl⟩
    · exact ⟨_, rfl⟩

include ha in
/-- A directory that could not be made cannot be made afterwards. -/
theorem Repeats.makeDirectoryAfter_fails (hfs : fs.WellFormed) (h : makeDirectoryAfter above p fs = (fs', .error e)) :
    ∃ e', (makeDirectoryAfter above p fs').2 = .error e' := by
  simp only [makeDirectoryAfter] at h
  split at h
  · cases h
  · rcases hup : above fs with ⟨fs₁, e₁ | ⟨⟩⟩ <;> rw [hup] at h
    · cases h
      obtain ⟨e', he⟩ := ha.failed fs fs' e hfs hup
      exact ha.blocked he
    · simp only at h
      have hdone := ha.done fs fs₁ hfs hup
      cases hm : fs₁.makeDirectory p with
      | ok fs₂ =>
        rw [hm] at h
        cases h
      | error e₁ =>
        rw [hm] at h
        by_cases hd : fs₁.isDirectory p = true
        · simp only [hd, if_true] at h
          cases h
        · simp only [if_neg hd] at h
          cases h
          refine ⟨e, ?_⟩
          simp only [makeDirectoryAfter, hm, if_neg hd, hdone]
          split <;> simp_all
  · rename_i e₁ hm hne
    by_cases hd : fs.isDirectory p = true
    · simp only [hd, if_true] at h
      cases h
    · simp only [if_neg hd] at h
      cases h
      refine ⟨e, ?_⟩
      simp only [makeDirectoryAfter, if_neg hd]
      split <;> simp_all

end Again

theorem makeComponents_wellFormed (components : List Path.Component) {fs : FileSystem} (hfs : fs.WellFormed) :
    (makeComponents components fs).1.WellFormed :=
  makeComponents_induct (fun _ _ _ hw hm => (makeDirectory_grown NoScratch hw hm).2) components fs hfs

theorem makeComponents_done {components : List Path.Component} {fs fs' : FileSystem} (hfs : fs.WellFormed)
    (h : makeComponents components fs = (fs', .ok ())) : makeComponents components fs' = (fs', .ok ()) := by
  cases components with
  | nil => rfl
  | cons last above =>
    have hd := makeDirectoryAfter_isDirectory hfs (makeComponents_wellFormed above hfs) h
    exact makeDirectoryAfter_of_isDirectory hd _

/-- Making the directories above a path repeats itself, if a failure of it does. -/
theorem repeats_above {p : Path} {above : List Path.Component} {last : Path.Component}
    (hrow : IsRow (above.reverse ++ [last])) (hp : Spells p (above.reverse ++ [last]))
    (hfails : ∀ (fs fs' : FileSystem) (e : IoFault), fs.WellFormed → makeComponents above fs = (fs', .error e) →
      ∃ e', (makeComponents above fs').2 = .error e') : Repeats (makeComponents above) p where
  wellFormed _ := makeComponents_wellFormed above
  done _ _ := makeComponents_done
  failed := hfails
  needed fs follow spot h := by
    cases above with
    | nil => rfl
    | cons next above =>
      have hne : (next :: above).reverse ≠ [] := by simp
      exact makeDirectoryAfter_of_isDirectory (isDirectory_above hrow hp hne h) _

theorem makeComponents_fails {components : List Path.Component} (hrow : IsRow components.reverse)
    {fs fs' : FileSystem} {e : IoFault} (hfs : fs.WellFormed) (h : makeComponents components fs = (fs', .error e)) :
    ∃ e', (makeComponents components fs').2 = .error e' := by
  induction components generalizing fs fs' e with
  | nil => cases h
  | cons last above ih =>
    have hspells := hrow.spells
    rw [List.reverse_cons] at hrow hspells
    have ha : Repeats (makeComponents above) (Path.ofComponents (last :: above).reverse) := by
      rw [List.reverse_cons]
      exact repeats_above hrow hspells fun _ _ _ => ih hrow.above
    exact ha.makeDirectoryAfter_fails hfs h

/-- Directories that were made are there. -/
theorem isDirectory_of_made {fs fs' : FileSystem} (hfs : fs.WellFormed) {p : Path}
    (h : fs.makeDirectories p = (fs', .ok ())) : p.bytes = [] ∨ fs'.isDirectory p = true := by
  unfold makeDirectories at h
  split at h
  · exact .inl ‹_›
  · exact .inr (makeDirectoryAfter_isDirectory hfs (makeComponents_wellFormed _ hfs) h)

/-- Directories that could not be made cannot be made in what the attempt has left either. -/
theorem makeDirectories_fails_again {fs fs' : FileSystem} (hfs : fs.WellFormed) {p : Path} {e : IoFault}
    (h : fs.makeDirectories p = (fs', .error e)) : ∃ e', (fs'.makeDirectories p).2 = .error e' := by
  unfold makeDirectories at h ⊢
  split at h
  · cases h
  · rename_i hne
    rw [if_neg hne]
    have hrow := isRow_components p
    have hspells := spells_components p
    rcases hc : p.components.reverse with _ | ⟨last, above⟩
    · rw [hc] at h
      have ha : Repeats (makeComponents []) p :=
        ⟨fun _ hw => hw, fun _ _ _ _ => rfl, fun _ _ _ _ h => (by cases h), fun _ _ _ _ => rfl⟩
      exact ha.makeDirectoryAfter_fails hfs h
    · rw [hc] at h
      have hcomponents : p.components = above.reverse ++ [last] := by
        rw [← List.reverse_cons, ← hc, List.reverse_reverse]
      rw [hcomponents] at hrow hspells
      have ha := repeats_above hrow hspells fun _ _ _ => makeComponents_fails hrow.above
      exact ha.makeDirectoryAfter_fails hfs h

end FileSystem

end SourceJar
