import SourceJar.Proofs.Backends
import SourceJar.Proofs.ComponentPaths
import SourceJar.Proofs.Scanning

/-!
Copies of units in a directory of their own.

The path of a copy goes down from the directory along plain names (`temporaryPath_join`), so it leads below the directory
and nowhere else, whatever stands there by now (`Holds.locate_below`), and the directories that are made for it are there
too (`Holds.makeDirectories_along`). While a command works on the copy, the copy is the only file below the directory;
afterwards there is none, on every way out (`decompileCopy_copied`), and so it is after any calls (`Called.holds`).
-/

namespace SourceJar

open FileSystem

/-! ## The path of a copy -/

namespace Path

/-- The path without its last component is spelled by the others. -/
theorem parent?_of_components {p : Path} {above : List Component} {last : Component}
    (h : p.components = above ++ [last]) (hr : last ≠ .root) : p.parent? = some (ofComponents above) := by
  rw [parent?, h, List.reverse_append, List.reverse_singleton, List.singleton_append]
  cases last with
  | root => exact absurd rfl hr
  | _ => simp

theorem parent?_join (base : Path) {name : Bytes} (hn : IsPlain name) :
    (base.join ⟨name⟩).parent? = some (ofComponents base.components) :=
  parent?_of_components (components_join base (isInner_name hn)) Component.noConfusion

end Path

namespace Discovery

/-- A path that goes down along plain names has them as its last components. -/
theorem components_descend (directory : Path) {names : List Bytes} (h : ∀ name ∈ names, IsPlain name) :
    (descend directory names).components = directory.components ++ names.map .name := by
  induction names using List.reverseRecOn with
  | nil => simp [descend]
  | append_singleton front name ih =>
    have hinner := Path.isInner_name (h name (by simp))
    rw [descend_concat, List.map_append, ← List.append_assoc, ← ih fun other ho => h other (List.mem_append_left _ ho)]
    exact Path.components_join _ hinner

/-- A row of components that goes on along plain names spells a path that goes down along them. -/
theorem ofComponents_descend {components : List Path.Component} {names : List Bytes}
    (hrow : IsRow (components ++ names.map .name)) (hc : components ≠ []) :
    Path.ofComponents (components ++ names.map .name) = descend (Path.ofComponents components) names := by
  induction names using List.reverseRecOn with
  | nil => simp [descend]
  | append_singleton front name ih =>
    rw [List.map_append, ← List.append_assoc] at hrow ⊢
    rw [List.map_singleton, Path.ofComponents_concat hrow (by simp [hc]), descend_concat, ih hrow.above]
    rfl

theorem endsInSlash_descend (directory : Path) {names : List Bytes} (h : ∀ name ∈ names, IsPlain name)
    (hn : names ≠ []) : endsInSlash (descend directory names) = false := by
  rcases List.eq_nil_or_concat names with rfl | ⟨front, last, rfl⟩
  · exact absurd rfl hn
  · have hseg := (h last (by simp)).toIsSegment
    rw [List.concat_eq_append, descend_concat, endsInSlash_join (isAbsolute_segment hseg) hseg.ne_nil,
      endsInSlash_segment hseg]

end Discovery

open Discovery

namespace Backend

/-- The names of a unit's copy below the root. -/
def copyNames (unit : Archive.Entry) : List Bytes :=
  (Path.ofText unit.entryPath).components.filterMap fun
    | .name bytes => some bytes
    | _ => none

theorem isPlain_copyNames {unit : Archive.Entry} {name : Bytes} (h : name ∈ copyNames unit) : IsPlain name := by
  obtain ⟨c, hc, hname⟩ := List.mem_filterMap.mp h
  cases c with
  | name bytes =>
    cases hname
    exact Path.isPlain_of_mem_components hc
  | _ => cases hname

/-- The path of a copy goes down from the root along plain names. -/
theorem temporaryPath_eq_descend (root : Path) (unit : Archive.Entry) :
    temporaryPath root unit = descend root (copyNames unit) := by
  rw [temporaryPath_eq, copyNames]
  generalize (Path.ofText unit.entryPath).components = components
  induction components generalizing root with
  | nil => rfl
  | cons component rest ih => cases component <;> exact ih _

/-- The same path, down from the directory that the root is in. -/
theorem temporaryPath_join (base : Path) (name : Bytes) (unit : Archive.Entry) :
    temporaryPath (base.join ⟨name⟩) unit = descend base (name :: copyNames unit) := by
  rw [temporaryPath_eq_descend, descend, descend, List.foldl_cons]

end Backend

namespace FileSystem

/-! ## Walks without links -/

/-- A walk along plain names on which there are no links goes down along them. -/
theorem Leads.straight {fs : FileSystem} {follow slash : Bool} {links : Nat} {here : Place} {names : List Bytes}
    {spot : Spot} (h : Leads fs follow links here names slash spot) (hn : ∀ name ∈ names, IsPlain name)
    (hl : ∀ front target, front ≠ [] → front <+: names → fs.get? (here ++ front) ≠ some (.link target)) :
    spot.place = here ++ names ∧ ∀ name ∈ names, IsName name := by
  induction h with
  | here => exact ⟨(List.append_nil _).symm, fun _ h => by cases h⟩
  | stay => exact absurd rfl (hn _ List.mem_cons_self).ne_here
  | up => exact absurd rfl (hn _ List.mem_cons_self).ne_parent
  | @down _ here name _ _ _ hname _ _ ih =>
    obtain ⟨hplace, hnames⟩ := ih (fun name hm => hn name (List.mem_cons_of_mem _ hm)) fun front target _ hf => by
      have hnext := hl (name :: front) target (List.cons_ne_nil _ _) (List.prefix_cons_inj name |>.mpr hf)
      rwa [List.append_cons] at hnext
    exact ⟨by rw [hplace, List.append_assoc]; rfl, List.forall_mem_cons.mpr ⟨hname, hnames⟩⟩
  | @along _ _ name rest _ _ _ _ hg =>
    exact absurd hg (hl [name] _ (List.cons_ne_nil _ _) ⟨rest, rfl⟩)
  | @link _ _ name _ _ _ hg => exact absurd hg (hl [name] _ (List.cons_ne_nil _ _) List.prefix_rfl)
  | node hname => exact ⟨rfl, List.forall_mem_singleton.mpr hname⟩
  | free hname => exact ⟨rfl, List.forall_mem_singleton.mpr hname⟩

/-- A walk to a directory depends on directories and links only. -/
theorem Leads.to_directory {fs fs' : FileSystem}
    (hd : ∀ place, fs.get? place = some .directory → fs'.get? place = some .directory)
    (hl : ∀ place target, fs.get? place = some (.link target) → fs'.get? place = some (.link target))
    {slash : Bool} {links : Nat} {here : Place} {names : List Bytes} {directory : Place}
    (h : Leads fs true links here names slash (.taken directory .directory)) :
    Leads fs' true links here names slash (.taken directory .directory) := by
  generalize hs : Spot.taken directory .directory = spot at h ⊢
  induction h with
  | here => exact .here _ _ _
  | stay _ ih => exact .stay (ih hs)
  | up _ ih => exact .up (ih hs)
  | down hn hg _ ih => exact .down hn (hd _ hg) (ih hs)
  | along hn hg hr _ ih => exact .along hn (hl _ _ hg) hr (ih hs)
  | link _ _ hf => exact absurd rfl hf
  | node _ _ hd => cases hs; exact absurd rfl hd
  | free => cases hs

/-! ## Paths spelled by the first components of another -/

/-- A path leads to a directory exactly if the path that its components spell does. -/
theorem locate_ofComponents {fs : FileSystem} {p : Path} (ha : Accepts p) {directory : Place} :
    fs.locate true (Path.ofComponents p.components) = .ok (.taken directory .directory) ↔
      fs.locate true p = .ok (.taken directory .directory) := by
  have hrow := isRow_components p
  have hsub := ofComponents_sublist p
  have hmoves := (moves_ofComponents hrow.plain).trans (moves_namesOf p).symm
  have hstart : fs.startOf (Path.ofComponents p.components) = fs.startOf p := by
    have habsolute : (Path.ofComponents p.components).isAbsolute = p.isAbsolute := by
      rw [Bool.eq_iff_iff, isAbsolute_ofComponents hrow.plain, isAbsolute_iff]
    rw [startOf, habsolute, ← startOf]
  have ha' : Accepts (Path.ofComponents p.components) := by
    refine ⟨?_, ofComponents_ne_nil hrow.plain (Path.components_ne_nil ha.ne_nil), hsub.length_le.trans ha.length_le⟩
    have hnul := ha.no_nul
    simp only [List.contains_eq_mem, decide_eq_false_iff_not] at hnul ⊢
    exact fun hm => hnul (hsub.subset hm)
  rw [locate_eq_ok_iff, locate_eq_ok_iff, hstart]
  exact ⟨fun h => ⟨ha, h.2.of_moves hmoves.symm _⟩, fun h => ⟨ha', h.2.of_moves hmoves _⟩⟩

/-- What is on the way to a directory is a directory. -/
theorem isDirectory_front {fs : FileSystem} {components front : List Path.Component} (hrow : IsRow components)
    (hd : fs.isDirectory (Path.ofComponents components) = true) (hf : front <+: components) (hne : front ≠ []) :
    fs.isDirectory (Path.ofComponents front) = true := by
  obtain ⟨rest, rfl⟩ := hf
  induction rest using List.reverseRecOn with
  | nil => rwa [List.append_nil] at hd
  | append_singleton more last ih =>
    rw [← List.append_assoc] at hrow hd
    obtain ⟨directory, hl⟩ := isDirectory_iff.mp hd
    exact ih hrow.above (isDirectory_above hrow hrow.spells (by simp [hne]) hl)

/-! ## A name in a directory, and what is below it -/

/-- Nothing was changed but at a place and below it. -/
def ChangesBelow (top : Place) (fs fs' : FileSystem) : Prop := ∀ place, ¬top <+: place → fs'.get? place = fs.get? place

theorem ChangesBelow.put {top place : Place} {fs fs' : FileSystem} (h : ChangesBelow top fs fs') (hp : top <+: place)
    (node : Inode) : ChangesBelow top fs (fs'.put place node) := fun other ho => by
  rw [(changesAt_put fs' place node).elsewhere other fun e => ho (e ▸ hp), h other ho]

/-- The path `base` leads to the directory `above`, and at most directories are at or below the place of a name in it,
but for files at some places. -/
structure Holds (base : Path) (above : Place) (name : Bytes) (scratch : Place → Prop) (fs : FileSystem) : Prop where
  wellFormed : fs.WellFormed
  leads : fs.locate true base = .ok (.taken above .directory)
  inside : ∀ place node, above ++ [name] <+: place → fs.get? place = some node →
    node = .directory ∨ scratch place ∧ ∃ content, node = .file content

section Below

variable {base : Path} {above : Place} {name : Bytes} {scratch : Place → Prop} {fs fs' : FileSystem}
  {row : List Bytes}

theorem Holds.accepts (h : Holds base above name scratch fs) : Accepts base := (locate_eq_ok_iff.mp h.leads).1

/-- The same, with the directory's path spelled by components. -/
theorem Holds.spelled (h : Holds base above name scratch fs) :
    Holds (Path.ofComponents base.components) above name scratch fs :=
  ⟨h.wellFormed, (locate_ofComponents h.accepts).mpr h.leads, h.inside⟩

/-- A walk along a path that goes down from the directory comes to that directory. -/
theorem Holds.walk_descend (h : Holds base above name scratch fs) (hr : ∀ name ∈ row, IsPlain name) (hne : row ≠ []) :
    ∃ left, ∀ follow slash, fs.walk follow maxLinks (fs.startOf (Discovery.descend base row))
      (namesOf (Discovery.descend base row)) slash = fs.walk follow left above row slash := by
  obtain ⟨hstart, hnames⟩ := parts_descend fs base fun name hm => (hr name hm).toIsSegment
  obtain ⟨left, hwalk⟩ := (locate_eq_ok_iff.mp h.leads).2.walk_append
  refine ⟨left, fun follow slash => ?_⟩
  rw [hstart, hnames]
  exact hwalk follow row slash hne

/-- A path that goes down to the name and below it leads to the place that its names are, or nowhere. -/
theorem Holds.locate_below (h : Holds base above name scratch fs) (hr : ∀ other ∈ name :: row, IsPlain other)
    {follow : Bool} {spot : Spot} (hl : fs.locate follow (Discovery.descend base (name :: row)) = .ok spot) :
    spot.place = above ++ name :: row ∧ Accepts (Discovery.descend base (name :: row)) ∧
      ∀ other ∈ name :: row, IsName other := by
  obtain ⟨ha, hleads⟩ := locate_eq_ok_iff.mp hl
  obtain ⟨left, hwalk⟩ := h.walk_descend hr (List.cons_ne_nil _ _)
  rw [← walk_eq_ok_iff, hwalk, walk_eq_ok_iff] at hleads
  obtain ⟨hplace, hnames⟩ := hleads.straight hr fun front target hne hf hg => by
    obtain ⟨first, more, rfl⟩ := List.exists_cons_of_ne_nil hne
    obtain ⟨rfl, -⟩ := List.cons_prefix_cons.mp hf
    rcases h.inside _ _ ⟨more, by simp⟩ hg with e | ⟨-, content, e⟩ <;> cases e
  exact ⟨hplace, ha, hnames⟩

/-- A file is found by the path that goes down to it. -/
theorem Holds.locate_file (h : Holds base above name scratch fs) (hr : ∀ other ∈ name :: row, IsPlain other)
    (ha : Accepts (Discovery.descend base (name :: row))) (hnames : ∀ other ∈ name :: row, IsName other)
    {content : Bytes} (hg : fs.get? (above ++ name :: row) = some (.file content)) (follow : Bool) :
    fs.locate follow (Discovery.descend base (name :: row)) = .ok (.taken (above ++ name :: row) (.file content)) := by
  obtain ⟨left, hwalk⟩ := h.walk_descend hr (List.cons_ne_nil _ _)
  rw [locate_of_accepts ha, hwalk, endsInSlash_descend base hr (List.cons_ne_nil _ _)]
  obtain ⟨front, last, hrow⟩ := (List.eq_nil_or_concat (name :: row)).resolve_left (List.cons_ne_nil _ _)
  rw [hrow, List.concat_eq_append] at hg hnames ⊢
  -- all that is above the file are directories
  have hdirectories : ∀ more, more <+: front → fs.get? (above ++ more) = some .directory := by
    rintro more ⟨rest, rfl⟩
    have hne : rest ++ [last] ≠ [] := List.append_ne_nil_of_right_ne_nil rest (List.cons_ne_nil last [])
    refine h.wellFormed.directory_of_below hne ?_
    rw [List.append_assoc, ← List.append_assoc more, hg]
    exact Option.some_ne_none _
  rw [FileSystem.walk_descend (fun other ho => hnames other (List.mem_append_left [last] ho)) hdirectories,
    walk_name (hnames last (by simp)), List.append_assoc, hg]
  rfl

/-- Something put at the name or below it, where nothing stood. -/
theorem Holds.put (h : Holds base above name scratch fs) {place : Place} {node : Inode} (hp : above ++ [name] <+: place)
    (hfree : fs.get? place = none) (hw : (fs.put place node).WellFormed) {scratch' : Place → Prop}
    (hf : ∀ other, scratch other → scratch' other)
    (hnode : node = .directory ∨ scratch' place ∧ ∃ content, node = .file content) :
    Holds base above name scratch' (fs.put place node) where
  wellFormed := hw
  leads := by
    obtain ⟨ha, hl⟩ := locate_eq_ok_iff.mp h.leads
    refine locate_eq_ok_iff.mpr ⟨ha, hl.mono fun other kind hg => ?_⟩
    rw [(changesAt_put fs place node).elsewhere other, hg]
    rintro rfl
    rw [hfree] at hg
    cases hg
  inside other kind ho hg := by
    by_cases e : other = place
    · rw [e, get?_put_self fs (ne_nil_of_free hfree)] at hg
      rw [← Option.some.inj hg, e]
      exact hnode
    · rw [(changesAt_put fs place node).elsewhere other e] at hg
      exact (h.inside other kind ho hg).imp_right fun ⟨ho, hkind⟩ => ⟨hf other ho, hkind⟩

/-! ## The directories above a copy -/

/-- Each directory on the way to a copy is there, or is made at the name or below it. -/
theorem Holds.makeDirectory_along (h : Holds base above name scratch fs) (hr : ∀ other ∈ name :: row, IsPlain other)
    {front : List Path.Component} (hne : front ≠ []) (hf : front <+: base.components ++ (name :: row).map .name)
    (hd : fs.makeDirectory (Path.ofComponents front) = .ok fs') :
    ∃ place, above ++ [name] <+: place ∧ fs.get? place = none ∧ fs' = fs.put place .directory ∧ fs'.WellFormed := by
  have hbase := isDirectory_iff.mpr ⟨above, h.spelled.leads⟩
  have hthere : ¬front <+: base.components := fun hf => by
    rw [makeDirectory_of_isDirectory (isDirectory_front (isRow_components base) hbase hf hne)] at hd
    cases hd
  obtain ⟨rest, rfl⟩ := (List.prefix_or_prefix_of_prefix hf (List.prefix_append _ _)).resolve_left hthere
  rw [List.prefix_append_right_inj, List.prefix_map_iff] at hf
  obtain ⟨more, hmore, rfl⟩ := hf
  cases more with
  | nil => simp at hthere
  | cons first more =>
    obtain ⟨rfl, -⟩ := List.cons_prefix_cons.mp hmore
    have hr' : ∀ other ∈ first :: more, IsPlain other := fun other ho => hr other (hmore.subset ho)
    have hrow : IsRow (base.components ++ (first :: more).map .name) :=
      Discovery.components_descend base hr' ▸ isRow_components _
    rw [Discovery.ofComponents_descend hrow (Path.components_ne_nil h.accepts.ne_nil)] at hd
    have hw := (makeDirectory_grown NoScratch h.wellFormed hd).2
    obtain ⟨place, slash, hl, rfl⟩ := makeDirectory_eq_ok hd
    have hplace : place = above ++ first :: more := (h.spelled.locate_below hr' hl).1
    exact ⟨place, hplace ▸ ⟨more, by simp⟩, (stands_of_locate h.wellFormed hl).1, rfl, hw⟩

/-- The directories that are made on the way to a copy are at the name or below it. -/
theorem Holds.makeDirectories_along (h : Holds base above name scratch fs) (hr : ∀ other ∈ name :: row, IsPlain other)
    {front : List Path.Component} (hrow : IsRow front) (hf : front <+: base.components ++ (name :: row).map .name) :
    Holds base above name scratch (fs.makeDirectories (Path.ofComponents front)).1 ∧
      ChangesBelow (above ++ [name]) fs (fs.makeDirectories (Path.ofComponents front)).1 := by
  refine FileSystem.makeDirectories_along (motive := fun made => Holds base above name scratch made ∧
    ChangesBelow (above ++ [name]) fs made) hrow (fun way hne hway made made' hmade hd => ?_) ⟨h, fun _ _ => rfl⟩
  obtain ⟨place, hp, hfree, rfl, hw⟩ := hmade.1.makeDirectory_along hr hne (hway.trans hf) hd
  exact ⟨hmade.1.put hp hfree hw (fun _ => id) (.inl rfl), hmade.2.put hp _⟩

/-! ## The copy -/

/-- A file that is written at a path down to the name or below it is new, if there were no files before. -/
theorem Holds.writeFile_eq_ok (h : Holds base above name NoScratch fs) (hr : ∀ other ∈ name :: row, IsPlain other)
    {content : Bytes} (hw : fs.writeFile (Discovery.descend base (name :: row)) content = .ok fs') :
    fs.get? (above ++ name :: row) = none ∧ fs' = fs.put (above ++ name :: row) (.file content) ∧
      fs'.WellFormed ∧ Accepts (Discovery.descend base (name :: row)) ∧ ∀ other ∈ name :: row, IsName other := by
  rw [writeFile, endsInSlash_descend base hr (List.cons_ne_nil _ _), if_neg Bool.false_ne_true] at hw
  cases hl : fs.locate true (Discovery.descend base (name :: row)) with
  | error e => simp [hl, bind, Except.bind] at hw
  | ok spot =>
    obtain ⟨hplace, ha, hnames⟩ := h.locate_below hr hl
    have hstands := stands_of_locate h.wellFormed hl
    rw [hl] at hw
    cases spot with
    | taken place node =>
      obtain rfl : place = _ := hplace
      rcases h.inside _ node ⟨row, by simp⟩ hstands with rfl | ⟨hnone, -⟩
      · cases hw
      · exact hnone.elim
    | free place slash =>
      obtain rfl : place = _ := hplace
      obtain ⟨hfree, directory, last, hdirectory, -, hd⟩ := hstands
      cases hw
      refine ⟨hfree, rfl, ?_, ha, hnames⟩
      rw [hdirectory] at hfree ⊢
      exact h.wellFormed.put hd (by simp [hfree]) _

/-- A file at the end of a path down to the name or below it can be removed. -/
theorem Holds.removeFile_eq (h : Holds base above name (· = above ++ name :: row) fs)
    (hr : ∀ other ∈ name :: row, IsPlain other) (ha : Accepts (Discovery.descend base (name :: row)))
    (hnames : ∀ other ∈ name :: row, IsName other) {content : Bytes}
    (hg : fs.get? (above ++ name :: row) = some (.file content)) :
    fs.removeFile (Discovery.descend base (name :: row)) = .ok (fs.erase (above ++ name :: row)) ∧
      Holds base above name NoScratch (fs.erase (above ++ name :: row)) := by
  have hn : fs.get? (above ++ name :: row) ≠ some .directory := by rw [hg]; simp
  refine ⟨?_, h.wellFormed.erase hn, ?_, fun place node hp hnode => ?_⟩
  · rw [removeFile, h.locate_file hr ha hnames hg]
    rfl
  · obtain ⟨hbase, hl⟩ := locate_eq_ok_iff.mp h.leads
    have hother : ∀ place node, fs.get? place = some node → node ≠ .file content →
        (fs.erase (above ++ name :: row)).get? place = some node := fun place node hnode hne => by
      rw [(changesAt_erase fs _).elsewhere place, hnode]
      rintro rfl
      rw [hg] at hnode
      exact hne (Option.some.inj hnode).symm
    exact locate_eq_ok_iff.mpr ⟨hbase, hl.to_directory (fun _ hd => hother _ _ hd Inode.noConfusion)
      fun _ _ hd => hother _ _ hd Inode.noConfusion⟩
  · by_cases e : place = above ++ name :: row
    · rw [e, get?_erase_self fs (ne_nil_of_get?_ne hn)] at hnode
      cases hnode
    · rw [(changesAt_erase fs _).elsewhere place e] at hnode
      exact .inl ((h.inside place node hp hnode).resolve_right fun hf => e hf.1)

/-- Without a file at the end of the path nothing is removed. -/
theorem Holds.removeFile_fails (h : Holds base above name (· = above ++ name :: row) fs)
    (hr : ∀ other ∈ name :: row, IsPlain other)
    (hg : ∀ content, fs.get? (above ++ name :: row) ≠ some (.file content)) :
    (∃ e, fs.removeFile (Discovery.descend base (name :: row)) = .error e) ∧ Holds base above name NoScratch fs := by
  refine ⟨?_, h.wellFormed, h.leads, fun place node hp hnode => ?_⟩
  · cases hrm : fs.removeFile (Discovery.descend base (name :: row)) with
    | error e => exact ⟨e, rfl⟩
    | ok fs' =>
      obtain ⟨place, node, hl, hdir, -⟩ := removeFile_eq_ok hrm
      obtain rfl : place = _ := (h.locate_below hr hl).1
      have hnode : fs.get? _ = some node := stands_of_locate h.wellFormed hl
      rcases h.inside _ _ ⟨row, by simp⟩ hnode with e | ⟨-, content, rfl⟩
      · exact absurd e hdir
      · exact absurd hnode (hg content)
  · rcases h.inside place node hp hnode with e | ⟨rfl, content, rfl⟩
    · exact .inl e
    · exact absurd hnode (hg content)

end Below

/-- A program makes no file at a place or below it, and leaves the directory that this is in where its path leads.
Directories may be made there, and whatever is there may be changed or removed. -/
structure MakesNoFile (root : Path) (top : Place) (fs fs' : FileSystem) : Prop where
  wellFormed : fs.WellFormed → fs'.WellFormed
  parent_kept : ∀ parent, root.parent? = some parent → fs'.directoryPlace parent = fs.directoryPlace parent
  inside : ∀ place node, top <+: place → fs'.get? place = some node →
    node = .directory ∨ ∃ new old, node = .file new ∧ fs.get? place = some (.file old)

theorem Holds.makesNoFile {base : Path} {above : Place} {name : Bytes} {scratch : Place → Prop} {fs fs' : FileSystem}
    (h : Holds base above name scratch fs) (hn : IsPlain name)
    (hm : MakesNoFile (base.join ⟨name⟩) (above ++ [name]) fs fs') : Holds base above name scratch fs' where
  wellFormed := hm.wellFormed h.wellFormed
  leads := by
    have hkept := hm.parent_kept _ (Path.parent?_join base hn)
    rw [directoryPlace_eq_ok_iff.mpr h.spelled.leads, directoryPlace_eq_ok_iff] at hkept
    exact (locate_ofComponents h.accepts).mp hkept
  inside place node hp hg := by
    refine (hm.inside place node hp hg).imp_right fun ⟨new, old, e, hold⟩ => ?_
    rcases h.inside place _ hp hold with hd | ⟨hs, -⟩
    · cases hd
    · exact ⟨hs, new, e⟩

/-- Where all files but those that were there before are gone, none were made. -/
theorem Holds.makesNoFile_of_kept {base : Path} {above : Place} {name : Bytes} {scratch scratch' : Place → Prop}
    {fs fs' : FileSystem} (h : Holds base above name scratch fs) (h' : Holds base above name scratch' fs')
    (hn : IsPlain name) (hk : ∀ place, scratch' place → ∃ content, fs.get? place = some (.file content)) :
    MakesNoFile (base.join ⟨name⟩) (above ++ [name]) fs fs' where
  wellFormed _ := h'.wellFormed
  parent_kept parent hparent := by
    rw [Path.parent?_join base hn] at hparent
    cases hparent
    rw [directoryPlace_eq_ok_iff.mpr h.spelled.leads, directoryPlace_eq_ok_iff.mpr h'.spelled.leads]
  inside place node hp hg := by
    refine (h'.inside place node hp hg).imp_right fun ⟨hs, new, e⟩ => ?_
    obtain ⟨old, hold⟩ := hk place hs
    exact ⟨new, old, e, hold⟩

end FileSystem

namespace Backend

/-! ## A call -/

section Call

variable {base : Path} {above : Place} {name : Bytes} {fs : FileSystem} {row : List Bytes}

/-- A copy is made at the name or below it, with a file or without. -/
theorem makeCopy_below (h : Holds base above name NoScratch fs) (hr : ∀ other ∈ name :: row, IsPlain other)
    {content : Bytes} {copied : FileSystem} {result : Except IoFault Unit}
    (hm : makeCopy (descend base (name :: row)) content fs = (copied, result)) :
    ChangesBelow (above ++ [name]) fs copied ∧
      (∀ e, result = .error e → Holds base above name NoScratch copied) ∧
      (result = .ok () → Holds base above name (· = above ++ name :: row) copied ∧
        copied.get? (above ++ name :: row) = some (.file content) ∧ Accepts (descend base (name :: row)) ∧
        ∀ other ∈ name :: row, IsName other) := by
  obtain ⟨front, last, hrow⟩ := (List.eq_nil_or_concat (name :: row)).resolve_left (List.cons_ne_nil _ _)
  have hcomponents := components_descend base hr
  have hall : IsRow (base.components ++ (name :: row).map .name) := hcomponents ▸ isRow_components _
  rw [hrow, List.concat_eq_append, List.map_append, ← List.append_assoc] at hall
  have hparent : (descend base (name :: row)).parent? = some (Path.ofComponents (base.components ++ front.map .name)) := by
    rw [hrow, List.concat_eq_append, List.map_append, ← List.append_assoc] at hcomponents
    rw [hrow, List.concat_eq_append]
    exact Path.parent?_of_components hcomponents (by simp)
  have hfront : base.components ++ front.map .name <+: base.components ++ (name :: row).map .name := by
    rw [hrow, List.concat_eq_append, List.map_append, ← List.append_assoc]
    exact List.prefix_append _ _
  obtain ⟨hmade, hchanges⟩ := h.makeDirectories_along hr hall.above hfront
  rw [makeCopy, hparent] at hm
  simp only at hm
  generalize fs.makeDirectories _ = directories at hmade hchanges hm
  rcases directories with ⟨made, e | ⟨⟩⟩
  · cases hm
    exact ⟨hchanges, fun _ _ => hmade, fun e => by cases e⟩
  · simp only at hm
    split at hm <;> cases hm
    · rename_i hw
      obtain ⟨hfree, rfl, hwell, ha, hnames⟩ := hmade.writeFile_eq_ok hr hw
      have hbelow : above ++ [name] <+: above ++ name :: row := ⟨row, by simp⟩
      have hfile : Holds base above name (· = above ++ name :: row) _ :=
        hmade.put hbelow hfree hwell (fun _ => False.elim) (.inr ⟨rfl, content, rfl⟩)
      exact ⟨hchanges.put hbelow _, (fun _ e => by cases e),
        fun _ => ⟨hfile, get?_put_self made (ne_nil_of_free hfree) _, ha, hnames⟩⟩
    · exact ⟨hchanges, fun _ _ => hmade, fun e => by cases e⟩

/-- A copy that a command has worked on is removed on every way out, and that it cannot be removed is told if nothing
else is. -/
theorem decompileCopy_copied (h : Holds base above name NoScratch fs) (hr : ∀ other ∈ name :: row, IsPlain other)
    {programs : Programs} {command : ExternalCommand} {unit : String} {content : Bytes} {copied : FileSystem}
    (hm : makeCopy (descend base (name :: row)) content fs = (copied, .ok ()))
    (hp : MakesNoFile (base.join ⟨name⟩) (above ++ [name]) copied (command.run programs
      (command.argumentsFor (descend base (name :: row)).display) unit [] content.isEmpty copied).2) :
    let place := above ++ name :: row
    let call := decompileCopy programs command (descend base (name :: row)) unit content fs
    let ran := command.run programs (command.argumentsFor (descend base (name :: row)).display) unit [] content.isEmpty
      copied
    Holds base above name NoScratch call.2 ∧ copied.get? place = some (.file content) ∧
      (∀ other, other ≠ place → call.2.get? other = ran.2.get? other) ∧
      if (ran.2.fileAt? place).isSome then call.1 = ran.1
      else ∃ e, call.1 = match ran.1 with
        | .ok _ => .error (.io unit e)
        | .error failure => .error failure := by
  intro place call ran
  obtain ⟨hcopied, hfile, ha, hnames⟩ := (makeCopy_below h hr hm).2.2 rfl
  have hran : Holds base above name (· = place) ran.2 := hcopied.makesNoFile (hr name List.mem_cons_self) hp
  by_cases hthere : ∃ left, ran.2.get? place = some (.file left)
  · -- the copy is still there
    obtain ⟨left, hg⟩ := hthere
    obtain ⟨hremove, hclean⟩ := hran.removeFile_eq hr ha hnames hg
    have hcall : call = (ran.1, ran.2.erase place) := by simp only [call, decompileCopy, hm, hremove, ran, place]
    rw [hcall]
    refine ⟨hclean, hfile, fun other ho => (changesAt_erase _ _).elsewhere other ho, ?_⟩
    simp [fileAt?, hg]
  · obtain ⟨⟨e, hremove⟩, hclean⟩ := hran.removeFile_fails hr fun left hg => hthere ⟨left, hg⟩
    have hgone : (ran.2.fileAt? place).isSome = false := by
      unfold fileAt?
      split
      · rename_i left hg
        exact absurd ⟨left, hg⟩ hthere
      · rfl
    rw [hgone, if_neg Bool.false_ne_true]
    cases hanswer : ran.1 with
    | ok text =>
      have hcall : call = (.error (.io unit e), ran.2) := by
        simp only [call, decompileCopy, hm, hremove, hanswer, ran]
      rw [hcall]
      exact ⟨hclean, hfile, fun _ _ => rfl, e, rfl⟩
    | error failure =>
      have hcall : call = (.error failure, ran.2) := by
        simp only [call, decompileCopy, hm, hremove, hanswer, ran]
      rw [hcall]
      exact ⟨hclean, hfile, fun _ _ => rfl, e, rfl⟩

/-- A copy that could not be made is told as a fault of the file system. -/
theorem decompileCopy_fails (programs : Programs) (command : ExternalCommand) {copy : Path} (unit : String)
    {content : Bytes} {made : FileSystem} {e : IoFault} (hm : makeCopy copy content fs = (made, .error e)) :
    decompileCopy programs command copy unit content fs = (.error (.io unit e), made) := by
  simp only [decompileCopy, hm]

end Call

/-! ## Calls after one another -/

/-- A new backend's directory has no files. -/
theorem make_holds {s : BackendSettings} {fs start : FileSystem} {command : ExternalCommand} {root : Path} {top : Place}
    (hfs : fs.WellFormed) (h : make s fs = (start, .ok (.tempfile command root top))) :
    ∃ base above name, root = base.join ⟨name⟩ ∧ top = above ++ [name] ∧ IsPlain name ∧
      Holds base above name NoScratch start := by
  have hroot : ∀ {before : FileSystem} {command' : ExternalCommand} {base : Path}, before.WellFormed →
      makeRoot command' base before = (start, .ok (.tempfile command root top)) →
      ∃ base above name, root = base.join ⟨name⟩ ∧ top = above ++ [name] ∧ IsPlain name ∧
        Holds base above name NoScratch start := by
    intro before command' base hbefore hmade
    obtain ⟨root', top', above, name, hb, hm, rfl⟩ := makeRoot_eq_ok hmade
    cases hb
    have hfree := hm.free
    have hw : (before.put top .directory).WellFormed := by
      rw [hm.top_eq] at hfree ⊢
      exact hbefore.put (stands_of_locate hbefore hm.leads) (by simp [hfree]) _
    have hnew : Holds base above name NoScratch before := by
      refine ⟨hbefore, hm.leads, fun place node hp hg => ?_⟩
      rw [hbefore.none_below hfree (hm.top_eq ▸ hp)] at hg
      cases hg
    exact ⟨base, above, name, hm.root_eq, hm.top_eq, hm.plain,
      hnew.put (hm.top_eq ▸ List.prefix_rfl) hfree hw (fun _ => id) (.inl rfl)⟩
  unfold make at h
  cases hk : s.kind with
  | skeleton => rw [hk] at h; cases h
  | stream =>
    simp only [hk] at h
    split at h <;> cases h
  | tempfile =>
    simp only [hk] at h
    split at h
    · cases h
    · unfold makeTempfile at h
      split at h
      · exact hroot hfs h
      · rename_i directory _
        have hw := (makeDirectories_grown hfs NoScratch directory).2
        split at h <;> rename_i hmade <;> rw [hmade] at hw
        · cases h
        · exact hroot hw h

/-- The program that a unit's copy is handed to makes no file at the backend's directory or below it. -/
def Harmless (command : ExternalCommand) (root : Path) (top : Place) (programs : Programs) (unit : Archive.Entry)
    (fs : FileSystem) : Prop :=
  ∀ content copied, Archive.readContent unit = .ok content →
    makeCopy (temporaryPath root unit) content fs = (copied, .ok ()) →
    MakesNoFile root top copied (command.run programs (command.argumentsFor (temporaryPath root unit).display) unit.name
      [] content.isEmpty copied).2

/-- What there can be after some calls of a temp-file backend, each for a unit and with programs of its own. In between,
anything may happen that makes no file at the backend's directory or below it. -/
inductive Called (command : ExternalCommand) (root : Path) (top : Place) (start : FileSystem) : FileSystem → Prop where
  | start : Called command root top start start
  | meanwhile {now later : FileSystem} : Called command root top start now → MakesNoFile root top now later →
      Called command root top start later
  | call {now : FileSystem} (programs : Programs) (unit : Archive.Entry) : Called command root top start now →
      Harmless command root top programs unit now →
      Called command root top start (decompile programs (.tempfile command root top) unit now).2

section Calls

variable {base : Path} {above : Place} {name : Bytes} {start now : FileSystem} {command : ExternalCommand}

/-- The names from the directory of a backend's root down to a copy. -/
theorem isPlain_copyRow (hn : IsPlain name) (unit : Archive.Entry) : ∀ other ∈ name :: copyNames unit, IsPlain other :=
  List.forall_mem_cons.mpr ⟨hn, fun _ h => isPlain_copyNames h⟩

/-- A call leaves no file behind. -/
theorem decompile_below (hn : IsPlain name) (h : Holds base above name NoScratch now) {programs : Programs}
    {unit : Archive.Entry} (hp : Harmless command (base.join ⟨name⟩) (above ++ [name]) programs unit now) :
    Holds base above name NoScratch
      (decompile programs (.tempfile command (base.join ⟨name⟩) (above ++ [name])) unit now).2 := by
  unfold decompile
  cases hc : Archive.readContent unit with
  | error e => exact h
  | ok content =>
    have hr := isPlain_copyRow hn unit
    have hpath := temporaryPath_join base name unit
    simp only
    rcases hmade : makeCopy (temporaryPath (base.join ⟨name⟩) unit) content now with ⟨copied, e | ⟨⟩⟩
    · rw [decompileCopy_fails programs command unit.name hmade]
      exact (makeCopy_below h hr (hpath ▸ hmade)).2.1 e rfl
    · have hprogram := hp content copied hc hmade
      rw [hpath] at hmade hprogram ⊢
      exact (decompileCopy_copied h hr hmade hprogram).1

/-- Between calls there are no files at the backend's directory or below it. -/
theorem Called.holds (hn : IsPlain name) (hs : Holds base above name NoScratch start)
    (h : Called command (base.join ⟨name⟩) (above ++ [name]) start now) : Holds base above name NoScratch now := by
  induction h with
  | start => exact hs
  | meanwhile _ hm ih => exact ih.makesNoFile hn hm
  | call programs unit _ hp ih => exact decompile_below hn ih hp

/-- A command that leaves everything as it is, or removes its copy and nothing else, is harmless. -/
theorem Called.harmless {s : BackendSettings} {fs : FileSystem} {root : Path} {top : Place} (hfs : fs.WellFormed)
    (hmake : make s fs = (start, .ok (.tempfile command root top))) (hnow : Called command root top start now)
    {programs : Programs} {unit : Archive.Entry}
    (hp : ∀ arguments fs, (programs command.program arguments [] fs).2 = fs ∨
      (programs command.program arguments [] fs).2 = fs.erase (top ++ copyNames unit)) :
    Harmless command root top programs unit now := by
  obtain ⟨base, above, name, rfl, rfl, hn, hs⟩ := make_holds hfs hmake
  intro content copied _ hm
  have hr := isPlain_copyRow hn unit
  rw [temporaryPath_join] at hm ⊢
  obtain ⟨hcopied, hfile, ha, hnames⟩ := (makeCopy_below (hnow.holds hn hs) hr hm).2.2 rfl
  generalize command.argumentsFor _ = arguments
  have hleft : (command.run programs arguments unit.name [] content.isEmpty copied).2 = copied ∨
      (command.run programs arguments unit.name [] content.isEmpty copied).2 =
        copied.erase (above ++ name :: copyNames unit) := by
    rcases command.run_snd programs arguments unit.name [] content.isEmpty copied with e | e
    · exact .inl e
    · rw [e, List.append_cons]
      exact hp arguments copied
  rcases hleft with e | e <;> rw [e]
  · exact hcopied.makesNoFile_of_kept hcopied hn fun place hplace => ⟨content, hplace ▸ hfile⟩
  · exact hcopied.makesNoFile_of_kept (hcopied.removeFile_eq hr ha hnames hfile).2 hn fun _ hnone => hnone.elim

end Calls

/-- Copies of units are made below the backend's directory and nowhere else, under names that do not go up, and are
removed again by the end of the call, whatever the command does and however the call ends. What cannot be copied, or is
not there any more when it is to be removed, is told as a fault of the file system, but for the command's own failure. -/
theorem copies_cleaned_up {s : BackendSettings} {fs start now : FileSystem} {command : ExternalCommand} {root : Path}
    {top : Place} (hfs : fs.WellFormed) (hmake : make s fs = (start, .ok (.tempfile command root top)))
    (hnow : Called command root top start now) {programs : Programs} {unit : Archive.Entry}
    (hp : Harmless command root top programs unit now) :
    let copy := temporaryPath root unit
    let place := top ++ copyNames unit
    let call := decompile programs (.tempfile command root top) unit now
    copy.components = root.components ++ (copyNames unit).map .name ∧
    (∀ name ∈ copyNames unit, name ≠ [] ∧ name ≠ [Path.dot] ∧ name ≠ [Path.dot, Path.dot] ∧ Path.slash ∉ name) ∧
    (∀ follow spot, now.locate follow copy = .ok spot → spot.place = place) ∧
    (∀ content, ChangesBelow top now (makeCopy copy content now).1) ∧
    (∀ other content, top <+: other → call.2.get? other ≠ some (.file content)) ∧
    (∀ e, Archive.readContent unit = .error e → call = (.error (.io unit.name e), now)) ∧
    (∀ content made e, Archive.readContent unit = .ok content → makeCopy copy content now = (made, .error e) →
      call = (.error (.io unit.name e), made)) ∧
    ∀ content copied, Archive.readContent unit = .ok content → makeCopy copy content now = (copied, .ok ()) →
      let ran := command.run programs (command.argumentsFor copy.display) unit.name [] content.isEmpty copied
      copied.get? place = some (.file content) ∧ (∀ other, other ≠ place → call.2.get? other = ran.2.get? other) ∧
      if (ran.2.fileAt? place).isSome then call.1 = ran.1
      else ∃ e, call.1 = match ran.1 with
        | .ok _ => .error (.io unit.name e)
        | .error failure => .error failure := by
  intro copy place call
  obtain ⟨base, above, name, rfl, rfl, hn, hs⟩ := make_holds hfs hmake
  have h := hnow.holds hn hs
  have hr := isPlain_copyRow hn unit
  have hcopy : copy = descend base (name :: copyNames unit) := temporaryPath_join base name unit
  have hplace : place = above ++ name :: copyNames unit := by simp [place]
  have hclean := decompile_below hn h hp
  have hcall : ∀ content, Archive.readContent unit = .ok content →
      call = decompileCopy programs command copy unit.name content now := fun content hc => by
    simp only [call, decompile, hc, copy]
  refine ⟨?_, fun other ho => ?_, fun follow spot hl => ?_, fun content => ?_, fun other content ho hg => ?_,
    fun e hc => ?_, fun content made e hc hm => ?_, fun content copied hc hm => ?_⟩
  · exact (congrArg Path.components (temporaryPath_eq_descend _ unit)).trans
      (components_descend _ fun _ ho => isPlain_copyNames ho)
  · have hplain := isPlain_copyNames ho
    exact ⟨hplain.ne_nil, hplain.ne_here, hplain.ne_parent, hplain.no_slash⟩
  · rw [hcopy] at hl
    rw [hplace]
    exact (h.locate_below hr hl).1
  · rcases hm : makeCopy copy content now with ⟨made, result⟩
    rw [hcopy] at hm
    exact (makeCopy_below h hr hm).1
  · rcases hclean.inside other _ ho hg with e | ⟨e, -⟩
    · cases e
    · exact e
  · simp only [call, decompile, hc]
  · rw [hcall content hc]
    exact decompileCopy_fails programs command unit.name hm
  · have hprogram : MakesNoFile _ _ copied (command.run programs (command.argumentsFor copy.display) unit.name []
        content.isEmpty copied).2 := hp content copied hc hm
    rw [hcall content hc, hplace]
    rw [hcopy] at hm hprogram ⊢
    exact (decompileCopy_copied h hr hm hprogram).2

/-- A file system with a directory for temporary files. -/
def spareRoom : FileSystem where
  nodes := [([Utf8.encode "tmp"], .directory)]
  workingDirectory := []
  temporaryDirectory := [Utf8.encode "tmp"]

/-- A backend with a command that eats its copy. -/
def eater : BackendSettings := { kind := .tempfile, command := some "eat" }

def eaterRoot : Path := ⟨Utf8.encode "/tmp/jarsources-000000"⟩

def eaterTop : Place := ["tmp", "jarsources-000000"].map Utf8.encode

/-- What there is when the backend has been made. -/
def eaterStart : FileSystem := spareRoom.put eaterTop .directory

/-- The copy that is eaten. -/
def eatenPath : Path := ⟨Utf8.encode "/tmp/jarsources-000000/a/B.class"⟩

def eatenPlace : Place := eaterTop ++ ["a", "B.class"].map Utf8.encode

/-- What the command does: it removes one file and writes a text. -/
def eating : Programs := fun _ _ _ fs => (.ok { output := [0x78] }, fs.erase eatenPlace)

/-- What the command leaves of the copy: the directory that was made for it. -/
def eaterLeft : FileSystem := eaterStart.put (eaterTop ++ [Utf8.encode "a"]) .directory

/-- A class with dots in its path, and one with more slashes than it needs. -/
def dottedUnit : Archive.Entry := .file "B.class" "lib.jar!/a/../B.class" (.ok [1])

def slashedUnit : Archive.Entry := .file "B.class" "lib.jar!//a/./B.class" (.ok [1])

/-- The command's text does not count when its copy is gone. -/
theorem decompileCopy_eating {fs : FileSystem}
    (hm : makeCopy eatenPath [1] fs = (eaterLeft.put eatenPlace (.file [1]), .ok ())) :
    decompileCopy eating ⟨"eat", []⟩ eatenPath "B.class" [1] fs = (.error (.io "B.class" (.os .noEntry)), eaterLeft) := by
  have hwords : (("eat" :: ExternalCommand.argumentsFor ⟨"eat", []⟩ eatenPath.display).any fun word =>
      word.toList.contains '\x00') = false := by decide +kernel
  have hjudge : ExternalCommand.judge "B.class" false { output := [0x78] } = .ok "x" := by decide +kernel
  have herase : (eaterLeft.put eatenPlace (.file [1])).erase eatenPlace = eaterLeft := by decide +kernel
  have hgone : eaterLeft.removeFile eatenPath = .error (.os .noEntry) := by
    simp only [eaterLeft, eaterStart]
    cbv
  simp only [decompileCopy, hm, ExternalCommand.run, hwords, Bool.false_eq_true, if_false, eating, List.isEmpty_cons,
    hjudge, herase, hgone]

theorem eaten_copies_cleaned_up :
    let b := Backend.tempfile ⟨"eat", []⟩ eaterRoot eaterTop
    let now := (decompile eating b dottedUnit eaterStart).2
    let call := decompile eating b slashedUnit now
    make eater spareRoom = (eaterStart, .ok b) ∧
      (∀ other content, eaterTop <+: other → call.2.get? other ≠ some (.file content)) ∧
      call.1 = .error (.io "B.class" (.os .noEntry)) := by
  intro b now call
  have hfs : spareRoom.WellFormed := .of_nodes (by decide +kernel) rfl fun name h => by cases h
  have hmake : make eater spareRoom = (eaterStart, .ok b) := by
    simp only [eaterStart, b]
    cbv
  -- the names of both copies are the same
  have heats : ∀ unit ∈ [dottedUnit, slashedUnit], ∀ (arguments : List String) (fs : FileSystem),
      (eating "eat" arguments [] fs).2 = fs ∨ (eating "eat" arguments [] fs).2 = fs.erase (eaterTop ++ copyNames unit) := by
    intro unit hu arguments fs
    have hnames : copyNames unit = ["a", "B.class"].map Utf8.encode := by
      revert unit
      decide +kernel
    rw [hnames]
    exact .inr rfl
  have hstart : Called ⟨"eat", []⟩ eaterRoot eaterTop eaterStart eaterStart := .start
  have hnow : Called ⟨"eat", []⟩ eaterRoot eaterTop eaterStart now :=
    .call eating dottedUnit hstart (hstart.harmless hfs hmake (heats _ (by simp)))
  have hleft : now = eaterLeft := by
    have hpath : temporaryPath eaterRoot dottedUnit = eatenPath := by decide +kernel
    have hcopy : makeCopy eatenPath [1] eaterStart = (eaterLeft.put eatenPlace (.file [1]), .ok ()) := by
      simp only [eaterLeft, eaterStart]
      cbv
    change (decompileCopy eating ⟨"eat", []⟩ (temporaryPath eaterRoot dottedUnit) "B.class" [1] eaterStart).2 = _
    rw [hpath, decompileCopy_eating hcopy]
  have hcall : call.1 = .error (.io "B.class" (.os .noEntry)) := by
    have hpath : temporaryPath eaterRoot slashedUnit = eatenPath := by decide +kernel
    have hcopy : makeCopy eatenPath [1] eaterLeft = (eaterLeft.put eatenPlace (.file [1]), .ok ()) := by
      simp only [eaterLeft, eaterStart]
      cbv
    change (decompileCopy eating ⟨"eat", []⟩ (temporaryPath eaterRoot slashedUnit) "B.class" [1] now).1 = _
    rw [hpath, hleft, decompileCopy_eating hcopy]
  refine ⟨hmake, ?_, hcall⟩
  exact (copies_cleaned_up hfs hmake hnow (hnow.harmless hfs hmake (heats _ (by simp)))).2.2.2.2.1

end Backend

end SourceJar
