import SourceJar.Backend.Basic
import SourceJar.Proofs.Changes
import SourceJar.Proofs.Steps

/-!
What backends leave behind.

The skeleton backend does not touch the file system. The programs that the other two start are taken to
be tidy: they touch no file, other than that a program that is handed the path of a copy may change or
remove that copy. A copy always goes below the backend's own directory: its path starts with that
directory's, does not go up, and there are no links on the way. So all that a backend does while it is
open is undone when it is closed, but for directories that were made for it.

- `inside`: where a path that starts with that of a new directory leads.
- `make_made`, `decompile_leaves`, `close_leaves`: the life of a backend.
- `run_invariant`: what each unit preserves, a traversal preserves.
-/

namespace SourceJar

open FileSystem

/-! ## Tidy programs -/

/-- Two file systems that look the same. -/
structure FileSystem.Same (fs fs' : FileSystem) : Prop where
  workingDirectory : fs'.workingDirectory = fs.workingDirectory
  temporaryDirectory : fs'.temporaryDirectory = fs.temporaryDirectory
  get?_eq : ∀ place, fs'.get? place = fs.get? place

/-- At most the regular file that a path leads to is changed or removed. -/
def FileSystem.ChangesCopy (p : Path) (fs fs' : FileSystem) : Prop :=
  Same fs fs' ∨ ∃ place old, fs.locate true p = .ok (.taken place (.file old)) ∧ ChangesAt place fs fs' ∧
    ∀ node, fs'.get? place = some node → ∃ new, node = .file new

/-- The programs that a backend starts touch no file but the copy that they are handed. -/
def Backend.Tidy (programs : Programs) : Backend → Prop
  | .skeleton _ => True
  | .stream command => ∀ input fs, Same fs (programs command.program command.arguments input fs).2
  | .tempfile command _ _ => ∀ p fs,
      ChangesCopy p fs (programs command.program (command.argumentsFor p.display) [] fs).2

namespace FileSystem

variable {scratch : Place → Prop} {fs fs' : FileSystem}

theorem Same.refl (fs : FileSystem) : Same fs fs := ⟨rfl, rfl, fun _ => rfl⟩

theorem Same.grown (h : Same fs fs') : Grown scratch fs fs' where
  workingDirectory := h.workingDirectory
  temporaryDirectory := h.temporaryDirectory
  kept place _ hg := (h.get?_eq place).trans hg
  added place _ hg := Or.inl ((h.get?_eq place).symm.trans hg)

theorem Same.wellFormed (h : Same fs fs') (hfs : fs.WellFormed) : fs'.WellFormed where
  parent {place name} hg := by
    rw [h.get?_eq] at hg ⊢
    exact hfs.parent hg
  working := by rw [h.workingDirectory, h.get?_eq]; exact hfs.working
  workingNames := by rw [h.workingDirectory]; exact hfs.workingNames

end FileSystem

/-! ## Below a new directory -/

/-- A directory was made at `top`, in the directory that `base` leads to, and `root` is its path. -/
structure RootMade (before : FileSystem) (root : Path) (top : Place) (base : Path) (above : Place) (name : Bytes) :
    Prop where
  root_eq : root = base.join ⟨name⟩
  plain : IsPlain name
  leads : before.locate true base = .ok (.taken above .directory)
  top_eq : top = above ++ [name]
  free : before.get? top = none

section Rooted

variable {before fs : FileSystem} {root base : Path} {top above : Place} {name : Bytes}

theorem RootMade.free_below (hm : RootMade before root top base above name) (hb : before.WellFormed) {place : Place}
    (hp : Below top place) : (before.put top .directory).get? place = none := by
  rw [(changesAt_put before top _).elsewhere place hp.2]
  exact hb.none_below hm.free hp.1

theorem RootMade.get?_top (hm : RootMade before root top base above name)
    (hg : Grown (Below top) (before.put top .directory) fs) : fs.get? top = some .directory := by
  refine hg.kept _ _ (get?_put_self before ?_ _)
  rw [hm.top_eq]
  simp

/-- A path that starts with that of a new directory, and does not go up, leads there or further down. -/
theorem RootMade.inside (hm : RootMade before root top base above name) (hb : before.WellFormed)
    (hg : Grown (Below top) (before.put top .directory) fs) {p : Path} {more : List Bytes}
    (ha : p.isAbsolute = base.isAbsolute) (hp : namesOf p = namesOf base ++ name :: more)
    (hup : [Path.dot, Path.dot] ∉ more) {follow : Bool} {spot : Spot} (h : fs.locate follow p = .ok spot) :
    top <+: spot.place := by
  have htop := hm.get?_top hg
  have hleads := (locate_eq_ok_iff.mp h).2
  rw [hp] at hleads
  obtain ⟨directory, left, hbase, hrest⟩ := hleads.split (List.cons_ne_nil name more)
  -- the first part still leads to where the directory was made
  have hstart : fs.startOf p = before.startOf base := by simp [startOf, ha, hg.workingDirectory, FileSystem.put]
  have hbase' : Leads fs true maxLinks (fs.startOf p) (namesOf base) (endsInSlash base) (.taken above .directory) := by
    rw [hstart]
    refine ((locate_eq_ok_iff.mp hm.leads).2.mono fun place node hn => ?_)
    refine hg.kept place node ?_
    rw [(changesAt_put before top _).elsewhere place, hn]
    rintro rfl
    rw [hm.free] at hn; cases hn
  obtain ⟨rfl, -⟩ := Spot.taken.inj ((hbase _).unique hbase')
  have hlinks : ∀ place target, top <+: place → place ≠ top → fs.get? place ≠ some (.link target) := by
    intro place target ht hne e
    rcases hg.added _ _ e with e | e | ⟨-, content, e⟩
    · rw [hm.free_below hb ⟨ht, hne⟩] at e; cases e
    · cases e
    · cases e
  rw [hm.top_eq] at htop
  cases hrest with
  | stay => exact absurd rfl hm.plain.ne_here
  | up => exact absurd rfl hm.plain.ne_parent
  | down _ _ hl => exact hl.stays_below hlinks (hm.top_eq ▸ List.prefix_rfl) hup
  | along _ he => rw [htop] at he; cases he
  | link _ he => rw [htop] at he; cases he
  | node _ he hd => rw [htop] at he; exact absurd (Option.some.inj he).symm hd
  | free _ he => rw [htop] at he; cases he

end Rooted

/-! ## The copy of a unit -/

namespace Backend

/-- A path one component further down; only names count. -/
def deeper (p : Path) : Path.Component → Path
  | .name bytes => p.join ⟨bytes⟩
  | _ => p

theorem temporaryPath_eq (root : Path) (unit : Archive.Entry) :
    temporaryPath root unit = (Path.ofText unit.entryPath).components.foldl deeper root := rfl

/-- The names of a copy's path are those of the root and others that do not go up. -/
theorem namesOf_temporaryPath (root : Path) (unit : Archive.Entry) :
    ∃ more, namesOf (temporaryPath root unit) = namesOf root ++ more ∧ [Path.dot, Path.dot] ∉ more ∧
      (temporaryPath root unit).isAbsolute = root.isAbsolute := by
  have hrow : ∀ (components : List Path.Component) (p : Path),
      (∀ bytes, .name bytes ∈ components → IsPlain bytes) →
      ∃ more, namesOf (components.foldl deeper p) = namesOf p ++ more ∧ [Path.dot, Path.dot] ∉ more ∧
        (components.foldl deeper p).isAbsolute = p.isAbsolute := by
    intro components
    induction components with
    | nil => exact fun p _ => ⟨[], by simp⟩
    | cons component rest ih =>
      intro p hc
      have hrest : ∀ bytes, .name bytes ∈ rest → IsPlain bytes := fun bytes hb => hc bytes (List.mem_cons_of_mem _ hb)
      cases component with
      | name bytes =>
        have hb : IsPlain bytes := hc bytes List.mem_cons_self
        have hr := isAbsolute_segment hb.toIsSegment
        obtain ⟨more, e, hup, ha⟩ := ih (p.join ⟨bytes⟩) hrest
        refine ⟨bytes :: more, e.trans ?_, ?_, ha.trans (isAbsolute_join hr)⟩
        · rw [namesOf_join hr, namesOf_segment hb.toIsSegment, List.append_assoc]
          rfl
        · rw [List.mem_cons]
          rintro (h | h)
          · exact hb.ne_parent h.symm
          · exact hup h
      | _ => exact ih p hrest
  rw [temporaryPath_eq]
  exact hrow _ root fun bytes hb => Path.isPlain_of_mem_components hb

/-- Where the path of a copy leads. -/
theorem inside_temporaryPath {before fs : FileSystem} {root base : Path} {top above : Place} {name : Bytes}
    (hm : RootMade before root top base above name) (hb : before.WellFormed)
    (hg : Grown (Below top) (before.put top .directory) fs) (unit : Archive.Entry) {follow : Bool} {spot : Spot}
    (h : fs.locate follow (temporaryPath root unit) = .ok spot) : top <+: spot.place := by
  obtain ⟨more, e, hup, ha⟩ := namesOf_temporaryPath root unit
  have hr := isAbsolute_segment hm.plain.toIsSegment
  have ha' : (temporaryPath root unit).isAbsolute = base.isAbsolute := by
    rw [ha, hm.root_eq, isAbsolute_join hr]
  have hnames : namesOf (temporaryPath root unit) = namesOf base ++ name :: more := by
    rw [e, hm.root_eq, namesOf_join hr, namesOf_segment hm.plain.toIsSegment, List.append_assoc]
    rfl
  exact hm.inside hb hg ha' hnames hup h

/-! ## The life of a backend -/

/-- What a backend that was made in the file system `before` may have left by now. -/
def Leaves (before : FileSystem) (b : Backend) (fs : FileSystem) : Prop :=
  fs.WellFormed ∧ match b with
    | .tempfile _ root top => (∃ base above name, RootMade before root top base above name) ∧
        Grown (Below top) (before.put top .directory) fs
    | _ => Grown NoScratch before fs

/-- What making a backend comes to: an open backend, or nothing more than directories. -/
def Made (before : FileSystem) (result : Except Failure Backend) (fs : FileSystem) : Prop :=
  match result with
  | .ok b => Leaves before b fs
  | .error _ => fs = before

/-- A temp-file backend is made with a new directory and nothing else. -/
theorem makeRoot_eq_ok {fs fs' : FileSystem} {command : ExternalCommand} {base : Path} {b : Backend}
    (h : makeRoot command base fs = (fs', .ok b)) :
    ∃ root top above name, b = .tempfile command root top ∧ RootMade fs root top base above name ∧
      fs' = fs.put top .directory := by
  unfold makeRoot at h
  split at h
  · cases h
  · rename_i fs₁ place hfresh
    cases h
    obtain ⟨above, number, hl, rfl, hfree, rfl⟩ := makeFresh_eq_ok hfresh
    refine ⟨_, _, above, _, rfl, ⟨?_, ?_, hl, rfl, hfree⟩, rfl⟩
    · simp
    · -- the name starts with a letter and has letters, digits and a `-`
      have hlong : ∀ short : Bytes, short.length < 11 →
          Utf8.encode rootStart ++ sixDigits number ++ Utf8.encode "" ≠ short := by
        rintro _ hs rfl
        simp only [List.length_append] at hs
        have : (Utf8.encode rootStart).length = 11 := by decide
        omega
      refine ⟨⟨hlong _ (by decide), fun hs => ?_⟩, hlong _ (by decide), hlong _ (by decide)⟩
      simp only [List.mem_append] at hs
      rcases hs with (hs | hs) | hs
      · exact absurd hs (by decide)
      · exact absurd (mem_sixDigits hs) (by decide)
      · exact absurd hs (by decide)

theorem makeRoot_made {fs fs' : FileSystem} (hfs : fs.WellFormed) {command : ExternalCommand} {base : Path}
    {result : Except Failure Backend} (h : makeRoot command base fs = (fs', result)) : Made fs result fs' := by
  cases result with
  | error e =>
    unfold makeRoot at h
    split at h <;> cases h
    rfl
  | ok b =>
    obtain ⟨root, top, above, name, rfl, hm, rfl⟩ := makeRoot_eq_ok h
    have hd : fs.get? above = some .directory := stands_of_locate hfs hm.leads
    have hfree : fs.get? (above ++ [name]) = none := hm.top_eq ▸ hm.free
    have hw : (fs.put top .directory).WellFormed := by
      rw [hm.top_eq]
      exact hfs.put hd (by rw [hfree]; simp) _
    exact ⟨hw, ⟨base, above, name, hm⟩, .refl _ _⟩

/-- Making a backend makes directories and nothing else. -/
theorem make_made {s : BackendSettings} {fs fs' : FileSystem} (hfs : fs.WellFormed)
    {result : Except Failure Backend} (h : make s fs = (fs', result)) :
    ∃ before, Grown NoScratch fs before ∧ before.WellFormed ∧ Made before result fs' := by
  unfold make at h
  cases hk : s.kind with
  | skeleton =>
    rw [hk] at h
    cases h
    exact ⟨fs, .refl _ _, hfs, hfs, .refl _ _⟩
  | stream =>
    simp only [hk] at h
    split at h <;> cases h
    · exact ⟨fs, .refl _ _, hfs, rfl⟩
    · exact ⟨fs, .refl _ _, hfs, hfs, .refl _ _⟩
  | tempfile =>
    simp only [hk] at h
    split at h
    · cases h
      exact ⟨fs, .refl _ _, hfs, rfl⟩
    · unfold makeTempfile at h
      split at h
      · exact ⟨fs, .refl _ _, hfs, makeRoot_made hfs h⟩
      · rename_i directory _
        obtain ⟨hg, hw⟩ := makeDirectories_grown hfs NoScratch directory
        split at h <;> rename_i hmade <;> rw [hmade] at hg hw
        · cases h
          exact ⟨fs', hg, hw, rfl⟩
        · exact ⟨_, hg, hw, makeRoot_made hw h⟩

/-- What is left of the file system without the backend has more directories at most. -/
theorem close_leaves {before fs : FileSystem} (hb : before.WellFormed) {b : Backend} (h : Leaves before b fs) :
    Grown NoScratch before (b.close fs) ∧ (b.close fs).WellFormed := by
  obtain ⟨hw, h⟩ := h
  cases b with
  | skeleton options => exact ⟨h, hw⟩
  | stream command => exact ⟨h, hw⟩
  | tempfile command root top =>
    obtain ⟨⟨base, above, name, hm⟩, hg⟩ := h
    exact closeTree hb hm.free hg hw

end Backend

/-- A command is not started, or does what its program does. -/
theorem ExternalCommand.run_snd (programs : Programs) (c : ExternalCommand) (arguments : List String) (unit : String)
    (input : Bytes) (emptyUnit : Bool) (fs : FileSystem) :
    (c.run programs arguments unit input emptyUnit fs).2 = fs ∨
      (c.run programs arguments unit input emptyUnit fs).2 = (programs c.program arguments input fs).2 := by
  unfold run
  split
  · exact Or.inl rfl
  · refine Or.inr ?_
    rcases programs c.program arguments input fs with ⟨_ | _, _⟩ <;> rfl

namespace Backend

section Copy

variable {before fs fs' : FileSystem} {root base : Path} {top above place : Place} {name : Bytes}

/-- A file below a new directory may come, change and go. -/
theorem changesAt_below (hm : RootMade before root top base above name) (hb : before.WellFormed)
    (hw : fs.WellFormed) (hg : Grown (Below top) (before.put top .directory) fs) {spot : Spot} (hs : fs.Stands spot)
    (ht : top <+: spot.place) (hn : fs.get? spot.place ≠ some .directory) (hc : ChangesAt spot.place fs fs')
    (hf : ∀ node, fs'.get? spot.place = some node → ∃ content, node = .file content) :
    fs'.WellFormed ∧ Grown (Below top) (before.put top .directory) fs' := by
  have hbelow : Below top spot.place := ⟨ht, fun e => hn (e ▸ hm.get?_top hg)⟩
  exact ⟨hw.changesAt hc hn fun _ => hs.directory_above hw hn, hg.changesAt hbelow (hm.free_below hb hbelow) hc hf⟩

/-- A copy is written where directories were made for it, or not at all. -/
theorem makeCopy_cases (p : Path) (content : Bytes) (fs : FileSystem) :
    ∃ made, (made = fs ∨ ∃ parent, made = (fs.makeDirectories parent).1) ∧
      ((makeCopy p content fs).1 = made ∨ made.writeFile p content = .ok (makeCopy p content fs).1) := by
  unfold makeCopy
  cases p.parent? with
  | none =>
    refine ⟨fs, .inl rfl, ?_⟩
    simp only
    cases fs.writeFile p content with
    | ok fs' => exact .inr rfl
    | error e => exact .inl rfl
  | some parent =>
    refine ⟨(fs.makeDirectories parent).1, .inr ⟨parent, rfl⟩, ?_⟩
    simp only
    generalize fs.makeDirectories parent = made
    rcases made with ⟨made, e | _⟩
    · exact .inl rfl
    · simp only
      cases made.writeFile p content with
      | ok fs' => exact .inr rfl
      | error e => exact .inl rfl

theorem makeCopy_leaves (hm : RootMade before root top base above name) (hb : before.WellFormed)
    (hw : fs.WellFormed) (hg : Grown (Below top) (before.put top .directory) fs) (unit : Archive.Entry)
    (content : Bytes) :
    (makeCopy (temporaryPath root unit) content fs).1.WellFormed ∧
      Grown (Below top) (before.put top .directory) (makeCopy (temporaryPath root unit) content fs).1 := by
  obtain ⟨made, hmade, hcopy⟩ := makeCopy_cases (temporaryPath root unit) content fs
  have hready : made.WellFormed ∧ Grown (Below top) (before.put top .directory) made := by
    rcases hmade with rfl | ⟨parent, rfl⟩
    · exact ⟨hw, hg⟩
    · have hd := makeDirectories_grown hw (Below top) parent
      exact ⟨hd.2, hg.trans hd.1⟩
  rcases hcopy with e | hwrite
  · rwa [e]
  · rcases writeFile_eq_ok hwrite with e | ⟨spot, hl, hfile, e⟩
    · rwa [e]
    · have hs := stands_of_locate hready.1 hl
      have hn : made.get? spot.place ≠ some .directory := by
        rcases spot with ⟨place, node⟩ | ⟨place, slash⟩
        · obtain ⟨old, rfl⟩ := hfile node rfl
          exact fun e => by cases (Eq.symm hs).trans e
        · exact fun e => by cases (Eq.symm hs.1).trans e
      rw [e]
      refine changesAt_below hm hb hready.1 hready.2 hs (inside_temporaryPath hm hb hready.2 unit hl) hn
        (changesAt_put _ _ _) ?_
      intro node e
      rw [get?_put_self made (ne_nil_of_get?_ne hn)] at e
      exact ⟨content, (Option.some.inj e).symm⟩

theorem changesCopy_leaves (hm : RootMade before root top base above name) (hb : before.WellFormed)
    (hw : fs.WellFormed) (hg : Grown (Below top) (before.put top .directory) fs) (unit : Archive.Entry)
    (hc : ChangesCopy (temporaryPath root unit) fs fs') :
    fs'.WellFormed ∧ Grown (Below top) (before.put top .directory) fs' := by
  rcases hc with hs | ⟨place, old, hl, hc, hf⟩
  · exact ⟨hs.wellFormed hw, hg.trans hs.grown⟩
  · have hs := stands_of_locate hw hl
    refine changesAt_below hm hb hw hg hs (inside_temporaryPath hm hb hg unit hl) ?_ hc hf
    exact fun e => by cases (Eq.symm hs).trans e

theorem removeFile_leaves (hm : RootMade before root top base above name) (hb : before.WellFormed)
    (hw : fs.WellFormed) (hg : Grown (Below top) (before.put top .directory) fs) (unit : Archive.Entry)
    (h : fs.removeFile (temporaryPath root unit) = .ok fs') :
    fs'.WellFormed ∧ Grown (Below top) (before.put top .directory) fs' := by
  obtain ⟨place, node, hl, hnode, rfl⟩ := removeFile_eq_ok h
  have hs := stands_of_locate hw hl
  have hn : fs.get? place ≠ some .directory := fun e => hnode (Option.some.inj ((Eq.symm hs).trans e))
  refine changesAt_below hm hb hw hg hs (inside_temporaryPath hm hb hg unit hl) hn (changesAt_erase _ _) ?_
  intro node e
  rw [Spot.place, get?_erase_self fs (ne_nil_of_get?_ne hn)] at e
  cases e

end Copy

/-- A unit that is turned into source text leaves the backend's directory grown at most. -/
theorem decompile_leaves {programs : Programs} {b : Backend} (hb : b.Tidy programs) {before fs : FileSystem}
    (hbefore : before.WellFormed) (h : Leaves before b fs) (unit : Archive.Entry) :
    Leaves before b (decompile programs b unit fs).2 := by
  unfold decompile
  split
  · exact h
  · rename_i content _
    obtain ⟨hw, h⟩ := h
    cases b with
    | skeleton options => exact ⟨hw, h⟩
    | stream command =>
      simp only
      rcases command.run_snd programs command.arguments unit.name content content.isEmpty fs with e | e <;> rw [e]
      · exact ⟨hw, h⟩
      · exact ⟨(hb content fs).wellFormed hw, h.trans (hb content fs).grown⟩
    | tempfile command root top =>
      obtain ⟨⟨base, above, name, hm⟩, hg⟩ := h
      suffices hsuff : (decompileCopy programs command (temporaryPath root unit) unit.name content fs).2.WellFormed ∧
          Grown (Below top) (before.put top .directory)
            (decompileCopy programs command (temporaryPath root unit) unit.name content fs).2 from
        ⟨hsuff.1, ⟨base, above, name, hm⟩, hsuff.2⟩
      obtain ⟨hw₁, hg₁⟩ := makeCopy_leaves hm hbefore hw hg unit content
      unfold decompileCopy
      split
      · rename_i fs₁ e hmade
        rw [hmade] at hw₁ hg₁
        exact ⟨hw₁, hg₁⟩
      · rename_i fs₁ hmade
        rw [hmade] at hw₁ hg₁
        have hrun : ∀ run : Except UnitFailure String × FileSystem,
            run.2 = fs₁ ∨ run.2 = (programs command.program
              (command.argumentsFor (temporaryPath root unit).display) [] fs₁).2 →
            run.2.WellFormed ∧ Grown (Below top) (before.put top .directory) run.2 := by
          rintro run (e | e) <;> rw [e]
          · exact ⟨hw₁, hg₁⟩
          · exact changesCopy_leaves hm hbefore hw₁ hg₁ unit (hb _ fs₁)
        obtain ⟨hw₂, hg₂⟩ := hrun _ (command.run_snd programs _ unit.name [] content.isEmpty fs₁)
        simp only
        split
        · exact removeFile_leaves hm hbefore hw₂ hg₂ unit ‹_›
        · split <;> exact ⟨hw₂, hg₂⟩

end Backend

/-! ## A whole traversal -/

namespace Traversal

variable {σ α : Type} {h : Host σ α} {motive : σ → Prop}

theorem addDirectory_state (path : String) (t : Traversal σ) : (addDirectory path t).2.state = t.state := by
  unfold addDirectory
  split <;> rfl

theorem addFile_state (path text : String) (t : Traversal σ) : (addFile path text t).2.state = t.state := by
  unfold addFile
  split <;> rfl

theorem visitUnit_invariant (hd : ∀ unit s, motive s → motive (h.decompile unit s).2)
    (hr : ∀ unit s, motive s → motive (h.report unit s)) (base : String) (unit : Node α) {t : Traversal σ}
    (ht : motive t.state) : motive (visitUnit h base unit t).2.state := by
  have hdone := hd unit t.state ht
  unfold visitUnit
  split
  · exact ht
  · split <;> rename_i e <;> rw [e] at hdone
    · rename_i text state
      have hfile := addFile_state (base ++ unit.baseName ++ "." ++ sourceExtension) text { t with state }
      split <;> rename_i e <;> rw [e] at hfile
      · exact hr unit _ (hfile ▸ hdone)
      · exact hfile ▸ hdone
    · exact hr unit _ hdone

/-- What each unit preserves, a row of steps preserves. -/
theorem performAll_invariant (hd : ∀ unit s, motive s → motive (h.decompile unit s).2)
    (hr : ∀ unit s, motive s → motive (h.report unit s)) (row : List (Step α)) {t : Traversal σ}
    (ht : motive t.state) : motive (performAll h row t).2.state := by
  induction row generalizing t with
  | nil => exact ht
  | cons step rest ih =>
    have hstep : motive (perform h step t).2.state := by
      cases step with
      | directory place name => rw [perform, addDirectory_state]; exact ht
      | unit place node => exact visitUnit_invariant hd hr _ node ht
    rw [performAll]
    split <;> rename_i e <;> rw [e] at hstep
    · exact ih hstep
    · exact hstep

/-- What each unit preserves, a traversal preserves. -/
theorem run_invariant (hd : ∀ unit s, motive s → motive (h.decompile unit s).2)
    (hr : ∀ unit s, motive s → motive (h.report unit s)) (root : Node α) {t : Traversal σ} (ht : motive t.state) :
    motive (run h root t).2.state := by
  by_cases hc : root.children = []
  · rw [run, hc]
    exact ht
  · rw [run_eq_performAll h hc]
    exact performAll_invariant hd hr _ ht

end Traversal

end SourceJar
