import SourceJar.Proofs.Handing
import SourceJar.Proofs.WrittenEntries

/-!
What can go wrong while a source is worked on.

Failures are of three kinds. Some turn a source down beforehand, one is a request to stop, and all others come up midway
(`Failure.IsMidway`): in reading the archive, in making the backend or in writing the output. A job that is never asked
to stop turns its source down for its name alone, and else fails midway or not at all. So nothing but a request to stop
makes a job end as cancelled.

- `midway_openArchive`, `Backend.midway_make`, `midway_produce`: the steps of a job.
- `runJob_cases`: a whole job.
-/

namespace SourceJar

open Archive Archive.EntryName FileSystem

/-- Causes that come up while a source is worked on: no reason to turn it down beforehand and no request to stop. -/
def Failure.IsMidway : Failure → Prop
  | .io _ | .archive _ | .emptyArchive _ | .settings _ | .backend _ => True
  | .unsupportedArchive _ | .outputConflict .. | .invalidPath _ | .noArchivesFound _ | .cancelled => False

/-- Something goes well or fails midway. -/
def Midway {β : Type} : Except Failure β → Prop
  | .ok _ => True
  | .error cause => cause.IsMidway

/-- Something does not end as cancelled. -/
def Uncancelled {β : Type} (e : Except Failure β) : Prop := e ≠ .error .cancelled

section Midway

variable {β γ : Type}

theorem midway_ok (x : β) : Midway (.ok x) := trivial

theorem Midway.bind {e : Except Failure β} {f : β → Except Failure γ} (he : Midway e) (hf : ∀ x, Midway (f x)) :
    Midway (e >>= f) := by
  cases e with
  | error cause => exact he
  | ok x => exact hf x

theorem Midway.mapM {f : γ → Except Failure β} (hf : ∀ x, Midway (f x)) (items : List γ) : Midway (items.mapM f) := by
  induction items with
  | nil => exact midway_ok _
  | cons x rest ih =>
    rw [List.mapM_cons]
    exact (hf x).bind fun _ => ih.bind fun _ => midway_ok _

theorem Midway.uncancelled {e : Except Failure β} (h : Midway e) : Uncancelled e := by
  rintro rfl
  exact h

end Midway

/-! ## Reading the archive -/

namespace Archive.Zip

theorem midway_endRecordAt (data : Bytes) (offset : Nat) : Midway (endRecordAt data offset) := by
  unfold endRecordAt
  split
  · trivial
  · split <;> trivial

theorem midway_shiftOf (data : Bytes) (record : EndRecord) (offset : Nat) : Midway (shiftOf data record offset) := by
  unfold shiftOf
  split
  · trivial
  · split
    · trivial
    · split <;> trivial

theorem midway_wideRecordAt (data : Bytes) (locator : Locator) (locatorOffset offset : Nat) :
    Midway (wideRecordAt data locator locatorOffset offset) := by
  unfold wideRecordAt
  split
  · trivial
  · simp only
    repeat' split
    all_goals trivial

theorem midway_firstWideRecord (data : Bytes) (locator : Locator) (locatorOffset : Nat) (places : List Nat)
    {fault : Failure} (hf : fault.IsMidway) : Midway (firstWideRecord data locator locatorOffset places fault) := by
  induction places generalizing fault with
  | nil => exact hf
  | cons offset others ih =>
    have hrecord := midway_wideRecordAt data locator locatorOffset offset
    rw [firstWideRecord]
    split
    · trivial
    · rename_i e
      rw [e] at hrecord
      exact ih hrecord

theorem midway_wideRecord (data : Bytes) (locator : Locator) (locatorOffset : Nat) :
    Midway (wideRecord data locator locatorOffset) := by
  unfold wideRecord
  dsimp only
  split
  · trivial
  · split
    · trivial
    · refine Midway.bind ?_ fun _ => midway_ok _
      exact midway_firstWideRecord data locator locatorOffset _ trivial

theorem midway_extentOf (data : Bytes) (record : EndRecord) (offset : Nat) : Midway (extentOf data record offset) := by
  unfold extentOf
  split
  · exact (midway_shiftOf data record offset).bind fun _ => midway_ok _
  · exact (midway_wideRecord data _ _).bind fun _ => midway_ok _

theorem midway_directoryFrom (data : Bytes) (places : List Nat) {fault : Option Failure}
    (hf : ∀ cause ∈ fault, cause.IsMidway) : Midway (directoryFrom data places fault) := by
  induction places generalizing fault with
  | nil =>
    cases fault with
    | none => trivial
    | some cause => exact hf cause rfl
  | cons offset others ih =>
    have hrecord := midway_endRecordAt data offset
    rw [directoryFrom]
    split
    · rename_i e
      rw [e] at hrecord
      refine ih fun cause hm => ?_
      cases fault with
      | none => exact Option.some.inj hm ▸ hrecord
      | some first => exact Option.some.inj hm ▸ hf first rfl
    · rename_i record _
      have hextent := midway_extentOf data record offset
      split
      · rename_i e
        rw [e] at hextent
        exact ih fun cause hm => Option.some.inj hm ▸ hextent
      · split
        · trivial
        · exact ih fun _ hm => by cases hm

end Archive.Zip

theorem nameOf_cases (p : Path) :
    (p.fileNameText?.isSome = true ∧ Midway (nameOf p)) ∨
      (p.fileNameText?.isSome = false ∧ nameOf p = .error (.invalidPath p.display)) := by
  unfold nameOf
  cases p.fileNameText? with
  | none => exact Or.inr ⟨rfl, rfl⟩
  | some name => exact Or.inl ⟨rfl, trivial⟩

theorem midway_outputName {source : Path} (hstem : source.stemText?.isSome = true) (suffix : String) :
    Midway (outputName source suffix) := by
  obtain ⟨stem, hs⟩ := Option.isSome_iff_exists.mp hstem
  unfold outputName
  rw [hs]
  simp only
  split <;> trivial

/-- An archive is opened, or cannot be read, unless its path has no name. -/
theorem midway_openArchive (fs : FileSystem) {p : Path} (hname : Midway (nameOf p)) : Midway (openArchive fs p) := by
  have hread : ∀ data, Midway (Zip.read data) := fun data =>
    (Zip.midway_directoryFrom data _ fun _ h => by cases h).bind fun _ => midway_ok _
  have hoffset : ∀ data entry, Midway (Zip.dataOffset data entry) := fun data entry => by
    unfold Zip.dataOffset
    repeat' split
    all_goals trivial
  have hentries : ∀ data, Midway (readEntries data) := fun data =>
    (hread data).bind fun _ => .mapM (fun entry => (hoffset data entry).bind fun _ => midway_ok _) _
  unfold openArchive
  refine hname.bind fun name => ?_
  split
  · trivial
  · exact (hentries _).bind fun _ => midway_ok _

/-! ## Making the backend -/

theorem Backend.midway_make (settings : BackendSettings) (fs : FileSystem) :
    Midway (Backend.make settings fs).2 := by
  have hcommand : Midway (Backend.commandOf settings) := by
    unfold Backend.commandOf
    repeat' split
    all_goals trivial
  have hroot : ∀ command base fs, Midway (Backend.makeRoot command base fs).2 := fun command base fs => by
    unfold Backend.makeRoot
    split <;> trivial
  unfold Backend.make
  split
  · trivial
  · split
    · rename_i e
      rwa [e] at hcommand
    · trivial
  · split
    · rename_i e
      rwa [e] at hcommand
    · unfold Backend.makeTempfile
      repeat' split
      · exact hroot _ _ _
      · trivial
      · exact hroot _ _ _

/-! ## Jobs -/

namespace Batch

section Jobs

variable (b : Batch)

theorem midway_run (backend : Backend) (job : Job) (s : State) :
    Midway (Traversal.run (b.unstopped.host backend job) job.root { state := s }).1 := by
  by_cases hc : job.root.children = []
  · rw [Traversal.run, hc]
    trivial
  · obtain ⟨draft, e, -⟩ := Traversal.performAll_takes (b.unstopped.host backend job) (Traversal.steps job.root)
      (t := { state := s }) Draft.named_fresh (Host.undisturbed_of_never _ (fun _ => rfl) _ s)
    rw [Traversal.run_eq_performAll _ hc, e]
    trivial

theorem midway_deliver (job : Job) (backend : Backend) (place : Place) (s : State) :
    Midway (b.unstopped.deliver job backend place s).1 := by
  have hrun := b.midway_run backend job s
  unfold deliver
  split <;> rename_i e <;> rw [e] at hrun
  · exact hrun
  · simp only
    split <;> trivial

theorem midway_fill (job : Job) (place : Place) (s : State) : Midway (b.unstopped.fill job place s).1 := by
  have hmake := Backend.midway_make b.unstopped.settings.backend s.fs
  unfold fill
  split <;> rename_i e <;> rw [e] at hmake
  · exact hmake
  · exact b.midway_deliver _ _ _ _

theorem midway_produce (job : Job) (s : State) : Midway (b.unstopped.produce job s).1 := by
  unfold produce
  simp only
  split
  · trivial
  · rename_i fs place _
    have hfill := b.midway_fill job place { s with fs }
    split <;> rename_i e <;> rw [e] at hfill
    · trivial
    · exact hfill

/-- A job that is never asked to stop turns its source down for its name, or goes well or fails midway. -/
theorem runJob_cases (index : Nat) (source : Path) (s : State) :
    (b.settings.isArchivePath source = false ∧
      (b.unstopped.runJob index source s).1 = .error (.unsupportedArchive source.display)) ∨
    (b.settings.isArchivePath source = true ∧ source.stemText?.isSome = false ∧
      (b.unstopped.runJob index source s).1 = .error (.invalidPath source.display)) ∨
    (b.settings.isArchivePath source = true ∧ source.stemText?.isSome = true ∧
      Midway (b.unstopped.runJob index source s).1) := by
  have hgoes : ¬b.unstopped.stops s = true := Bool.false_ne_true
  by_cases ha : b.settings.isArchivePath source = true
  · have htitle : b.unstopped.titleFor source s = nameOf source := by
      rw [titleFor, if_neg hgoes]
      exact if_neg (not_not.mpr ha)
    obtain ⟨extension, he⟩ := Settings.extensionText?_of_isArchivePath ha
    have htext := Path.isSome_fileNameText? he
    rcases nameOf_cases source with ⟨hname, hmidway⟩ | ⟨hname, e⟩
    · have hstem := htext.mp hname
      refine Or.inr (Or.inr ⟨ha, hstem, ?_⟩)
      have hopen (index : Nat) (title : String) (fs : FileSystem) :
          Midway (b.unstopped.openJob index title source fs) :=
        (midway_openArchive fs hmidway).bind fun _ => (midway_outputName hstem _).bind fun _ => midway_ok _
      unfold runJob
      rw [htitle]
      split <;> rename_i title e
      · rwa [e] at hmidway
      · have hjob := hopen index title (s.say index .opening ("Opening " ++ title)).fs
        simp only
        split <;> rename_i e <;> rw [e] at hjob
        · exact hjob
        · exact b.midway_produce _ _
    · refine Or.inr (Or.inl ⟨ha, ?_, ?_⟩)
      · rw [← Bool.not_eq_true, ← htext, hname]
        exact Bool.false_ne_true
      · rw [runJob, htitle, e]
  · have htitle : b.unstopped.titleFor source s = .error (.unsupportedArchive source.display) := by
      rw [titleFor, if_neg hgoes]
      exact if_pos ha
    refine Or.inl ⟨Bool.eq_false_iff.mpr ha, ?_⟩
    rw [runJob, htitle]

/-- A job that is never asked to stop does not end as cancelled. -/
theorem uncancelled_runJob (index : Nat) (source : Path) (s : State) :
    Uncancelled (b.unstopped.runJob index source s).1 := by
  rcases b.runJob_cases index source s with ⟨-, e⟩ | ⟨-, -, e⟩ | ⟨-, -, hmidway⟩
  · rw [e]
    exact nofun
  · rw [e]
    exact nofun
  · exact hmidway.uncancelled

end Jobs

end Batch

end SourceJar
