import SourceJar.Proofs.Outputs

/-!
What comes of a job with the skeleton backend.

The skeleton backend neither reads nor changes the file system, so a job that nothing stops is a function of
what it finds: the archive at its source, whether its output is there already, and the directory for it
(`conversion`). What happened before the job does not matter otherwise, and all that it does to the file
system is to put one file at one place.

- `run_alike`: traversals that are answered alike end alike.
- `moveFile_into`: what comes of moving a new file to a name in a directory.
- `runJob_conversion`: what comes of a job, and what it does to the file system.
- `conversion_congr`: what it depends on.
-/

namespace SourceJar

open Archive FileSystem

/-! ## Traversals that end alike -/

namespace Traversal

variable {σ τ α : Type}

/-- Two ends of a traversal that differ in nothing but the states behind them. -/
structure Alike (related : σ → τ → Prop) (e : Except Failure Unit × Traversal σ)
    (e' : Except Failure Unit × Traversal τ) : Prop where
  result : e.1 = e'.1
  draft : e.2.draft = e'.2.draft
  failed : e.2.failed = e'.2.failed
  state : related e.2.state e'.2.state

/-- Two surroundings that stop and answer alike, from related states on. -/
structure AnswerAlike (related : σ → τ → Prop) (h : Host σ α) (h' : Host τ α) : Prop where
  stops : ∀ s s', related s s' → h.stops s = h'.stops s'
  answer : ∀ unit s s', related s s' → (h.decompile unit s).1 = (h'.decompile unit s').1
  decompile : ∀ unit s s', related s s' → related (h.decompile unit s).2 (h'.decompile unit s').2
  report : ∀ unit s s', related s s' → related (h.report unit s) (h'.report unit s')

variable {related : σ → τ → Prop} {h : Host σ α} {h' : Host τ α} {t : Traversal σ} {t' : Traversal τ}

theorem addDirectory_alike (ht : Alike related (.ok (), t) (.ok (), t')) (path : String) :
    Alike related (addDirectory path t) (addDirectory path t') := by
  obtain ⟨-, hd, hf, hs⟩ := ht
  simp only at hd hf hs
  unfold addDirectory
  rw [hd]
  rcases t'.draft.addDirectory path with ⟨draft, _ | _⟩ <;> exact ⟨rfl, rfl, hf, hs⟩

theorem addFile_alike (ht : Alike related (.ok (), t) (.ok (), t')) (path text : String) :
    Alike related (addFile path text t) (addFile path text t') := by
  obtain ⟨-, hd, hf, hs⟩ := ht
  simp only at hd hf hs
  unfold addFile
  rw [hd]
  rcases t'.draft.addFile path text with ⟨draft, _ | _⟩ <;> exact ⟨rfl, rfl, hf, hs⟩

theorem visitUnit_alike (hh : AnswerAlike related h h') (ht : Alike related (.ok (), t) (.ok (), t')) (base : String)
    (unit : Node α) : Alike related (visitUnit h base unit t) (visitUnit h' base unit t') := by
  have hanswer := hh.answer unit _ _ ht.state
  have hafter := hh.decompile unit _ _ ht.state
  unfold visitUnit
  rw [hh.stops _ _ ht.state]
  split
  · exact ⟨rfl, ht.draft, ht.failed, ht.state⟩
  · rcases hd : h.decompile unit t.state with ⟨answer, s⟩
    rcases hd' : h'.decompile unit t'.state with ⟨answer', s'⟩
    simp only [hd, hd'] at hanswer hafter
    subst hanswer
    cases answer with
    | error e => exact ⟨rfl, ht.draft, congrArg (insertName unit.name) ht.failed, hh.report unit _ _ hafter⟩
    | ok text =>
      have ht' : Alike related (.ok (), { t with state := s }) (.ok (), { t' with state := s' }) :=
        ⟨rfl, ht.draft, ht.failed, hafter⟩
      have hadd := addFile_alike ht' (base ++ unit.baseName ++ "." ++ sourceExtension) text
      simp only
      rcases ha : addFile (base ++ unit.baseName ++ "." ++ sourceExtension) text { t with state := s } with ⟨r, u⟩
      rcases ha' : addFile (base ++ unit.baseName ++ "." ++ sourceExtension) text { t' with state := s' } with ⟨r', u'⟩
      rw [ha, ha'] at hadd
      obtain ⟨hr, hdraft, hfailed, hstate⟩ := hadd
      simp only at hr hdraft hfailed hstate
      subst hr
      cases r with
      | error e => exact ⟨rfl, hdraft, hfailed, hstate⟩
      | ok _ => exact ⟨rfl, hdraft, hfailed, hh.report unit _ _ hstate⟩

theorem performAll_alike (hh : AnswerAlike related h h') (row : List (Step α))
    (ht : Alike related (.ok (), t) (.ok (), t')) : Alike related (performAll h row t) (performAll h' row t') := by
  induction row generalizing t t' with
  | nil => exact ht
  | cons step rest ih =>
    have hstep : Alike related (perform h step t) (perform h' step t') := by
      cases step with
      | directory place name => exact addDirectory_alike ht _
      | unit place node => exact visitUnit_alike hh ht _ node
    unfold performAll
    rcases hp : perform h step t with ⟨r, u⟩
    rcases hp' : perform h' step t' with ⟨r', u'⟩
    rw [hp, hp'] at hstep
    obtain ⟨hr, hdraft, hfailed, hstate⟩ := hstep
    simp only at hr hdraft hfailed hstate
    subst hr
    cases r with
    | error e => exact ⟨rfl, hdraft, hfailed, hstate⟩
    | ok _ => exact ih ⟨rfl, hdraft, hfailed, hstate⟩

/-- Traversals of one tree that are answered alike end alike. -/
theorem run_alike (hh : AnswerAlike related h h') (root : Node α) {s : σ} {s' : τ} (hs : related s s') :
    Alike related (run h root { state := s }) (run h' root { state := s' }) := by
  have ht : Alike related (.ok (), { state := s }) (.ok (), { state := s' }) := ⟨rfl, rfl, rfl, hs⟩
  by_cases hc : root.children = []
  · rw [run, run, hc]
    exact ⟨rfl, rfl, rfl, hs⟩
  · rw [run_eq_performAll h hc, run_eq_performAll h' hc]
    exact performAll_alike hh _ ht

end Traversal

/-! ## Moving a new file to a name in a directory -/

namespace FileSystem

/-- Whether a path, and the last name on it, can be looked up at all. -/
def lookUp (p : Path) (name : Bytes) : Except IoFault Unit :=
  if p.bytes.contains 0 then .error .nulInPath
  else if maxPath < p.bytes.length then .error (.os .nameTooLong)
  else if maxName < name.length then .error (.os .nameTooLong)
  else .ok ()

/-- The last move of a walk that does not follow a link at the end. -/
theorem walk_last (fs : FileSystem) (links : Nat) (directory : Place) {name : Bytes} (hname : IsPlain name) :
    fs.walk false links directory [name] false =
      if maxName < name.length then .error .nameTooLong
      else .ok (match fs.get? (directory ++ [name]) with
        | none => .free (directory ++ [name]) false
        | some node => .taken (directory ++ [name]) node) := by
  by_cases hlong : maxName < name.length
  · rw [walk, if_neg hname.ne_here, if_neg hname.ne_parent, if_pos hlong, if_pos hlong]
  · rw [if_neg hlong, walk_name ⟨hname.ne_here, hname.ne_parent, Nat.not_lt.mp hlong⟩]
    cases fs.get? (directory ++ [name]) with
    | none => rfl
    | some node =>
      cases node with
      | directory => exact walk_nil
      | _ => rfl

/-- Where the path of a name in a directory leads. -/
theorem locate_join {fs : FileSystem} {base : Path} {directory : Place} {name : Bytes}
    (hd : ∀ slash, Leads fs true maxLinks (fs.startOf base) (namesOf base) slash (.taken directory .directory))
    (hname : IsPlain name) :
    fs.locate false (base.join ⟨name⟩) = (lookUp (base.join ⟨name⟩) name).map fun _ =>
      match fs.get? (directory ++ [name]) with
      | none => .free (directory ++ [name]) false
      | some node => .taken (directory ++ [name]) node := by
  have hseg := hname.toIsSegment
  have hrel := isAbsolute_segment hseg
  have hstart : fs.startOf (base.join ⟨name⟩) = fs.startOf base := by
    rw [startOf, isAbsolute_join hrel, ← startOf]
  have hnames : namesOf (base.join ⟨name⟩) = namesOf base ++ [name] := by
    rw [namesOf_join hrel, namesOf_segment hseg]
  have hslash : endsInSlash (base.join ⟨name⟩) = false := by
    rw [endsInSlash_join hrel hseg.ne_nil, endsInSlash_segment hseg]
  have hne : (base.join ⟨name⟩).bytes ≠ [] := by
    rcases join_bytes base hrel with ⟨e, -⟩ | ⟨e, -⟩ <;> rw [e] <;> simp [hseg.ne_nil]
  obtain ⟨left, hwalk⟩ := (hd false).walk_append
  unfold lookUp
  by_cases hnul : (base.join ⟨name⟩).bytes.contains 0 = true
  · rw [locate, if_pos hnul, if_pos hnul]
    rfl
  · by_cases hlong : maxPath < (base.join ⟨name⟩).bytes.length
    · rw [locate, if_neg hnul, if_neg hne, if_pos hlong, if_neg hnul, if_pos hlong]
      rfl
    · rw [locate_of_accepts ⟨by simpa using hnul, hne, Nat.not_lt.mp hlong⟩, hstart, hnames, hslash,
        hwalk false [name] false (List.cons_ne_nil _ _), walk_last fs left directory hname, if_neg hnul, if_neg hlong]
      split <;> rfl

/-- What comes of moving a new file to a name in a directory. -/
theorem moveFile_into {fs fs₁ : FileSystem} {base : Path} {directory source : Place} {content name : Bytes}
    (hd : ∀ slash, Leads fs true maxLinks (fs.startOf base) (namesOf base) slash (.taken directory .directory))
    (hn : fs.get? source = none) (hc : ChangesAt source fs fs₁) (hs : fs₁.get? source = some (.file content))
    (hname : IsPlain name) :
    fs₁.moveFile source (base.join ⟨name⟩) = (lookUp (base.join ⟨name⟩) name).bind fun _ =>
      if fs.get? (directory ++ [name]) = some .directory then .error (.os .isDirectory)
      else .ok ((fs₁.erase source).put (directory ++ [name]) (.file content)) := by
  have hkept : ∀ place node, fs.get? place = some node → fs₁.get? place = some node := fun place node hg => by
    rw [hc.elsewhere place, hg]
    rintro rfl
    rw [hn] at hg
    cases hg
  have hd' : ∀ slash, Leads fs₁ true maxLinks (fs₁.startOf base) (namesOf base) slash
      (.taken directory .directory) := by
    intro slash
    rw [startOf, hc.workingDirectory, ← startOf]
    exact (hd slash).mono hkept
  -- a directory in the way is not the new file itself
  have hblocked : fs.get? (directory ++ [name]) = some .directory ↔
      fs₁.get? (directory ++ [name]) = some .directory := by
    refine ⟨hkept _ _, fun e => ?_⟩
    rw [← hc.elsewhere, e]
    rintro e'
    rw [e', hs] at e
    cases e
  unfold moveFile
  rw [hs, locate_join hd' hname]
  simp only [hblocked]
  cases lookUp (base.join ⟨name⟩) name with
  | error e => rfl
  | ok _ =>
    cases fs₁.get? (directory ++ [name]) with
    | none => rfl
    | some node =>
      cases node with
      | directory => rfl
      | _ => rfl

end FileSystem

/-! ## Jobs -/

namespace Batch

/-- The skeleton backend of a batch. -/
def skeletonBackend (b : Batch) : Backend := .skeleton { includePrivate := b.settings.backend.includePrivate }

/-- What comes of an opened job with the skeleton backend: its report, and the archive with the place that it is put
at. -/
def concluded (b : Batch) (job : Job) (fs : FileSystem) : Except Failure (ArchiveReport × Place × Bytes) :=
  match fs.directoryPlace ((pathOf fs.workingDirectory).join b.destination) with
  | .error e => .error (.io e)
  | .ok directory =>
    match Traversal.run (b.host b.skeletonBackend job) job.root { state := { fs } } with
    | (.error e, _) => .error e
    | (.ok (), t) =>
      match lookUp job.outputPath (Utf8.encode job.outputName) with
      | .error e => .error (.io e)
      | .ok () =>
        if fs.get? (directory ++ [Utf8.encode job.outputName]) = some .directory then .error (.io (.os .isDirectory))
        else .ok (reportOf job b.skeletonBackend t, directory ++ [Utf8.encode job.outputName], t.draft.encode)

/-- What comes of a source with the skeleton backend. -/
def conversion (b : Batch) (source : Path) (fs : FileSystem) : Except Failure (ArchiveReport × Place × Bytes) :=
  if ¬b.settings.isArchivePath source then .error (.unsupportedArchive source.display)
  else
    match nameOf source with
    | .error e => .error e
    | .ok title =>
      match b.openJob 0 title source fs with
      | .error e => .error e
      | .ok job => b.concluded job fs

/-- What a job with the skeleton backend does to the file system: nothing, or it puts an archive at a place. -/
def Effect (fs : FileSystem) : Except Failure (ArchiveReport × Place × Bytes) → FileSystem → Prop
  | .error _, fs' => Same fs fs'
  | .ok (_, place, archive), fs' => fs.get? place ≠ some .directory ∧ ChangesAt place fs fs' ∧
      fs'.get? place = some (.file archive) ∧ fs'.WellFormed

/-- What was put where nothing stood is taken away again. -/
theorem same_of_erased {fs fs₁ : FileSystem} {place : Place} (hn : fs.get? place = none) (hc : ChangesAt place fs fs₁) :
    Same fs (fs₁.erase place) where
  workingDirectory := hc.workingDirectory
  temporaryDirectory := hc.temporaryDirectory
  get?_eq other := by
    by_cases e : other = place
    · rw [e, get?_erase_self _ (ne_nil_of_free hn), hn]
    · rw [(changesAt_erase _ _).elsewhere other e, hc.elsewhere other e]

/-- What was put where nothing stood is moved to another place. -/
theorem changesAt_moved {fs fs₁ : FileSystem} {source : Place} (hn : fs.get? source = none)
    (hc : ChangesAt source fs fs₁) (place : Place) (node : Inode) :
    ChangesAt place fs ((fs₁.erase source).put place node) := by
  have hsame := same_of_erased hn hc
  refine ⟨hsame.workingDirectory, hsame.temporaryDirectory, fun other ho => ?_⟩
  rw [(changesAt_put _ _ _).elsewhere other ho, hsame.get?_eq]

section Skeleton

variable {b : Batch} (hk : b.settings.backend.kind = .skeleton) (hstop : b.stopAfter = none)

include hstop in
/-- The skeleton backend answers alike whatever the state, and leaves the file system alone. -/
theorem host_answers_alike (fs : FileSystem) (job job' : Job) :
    Traversal.AnswerAlike (fun s _ => s.fs = fs) (b.host b.skeletonBackend job) (b.host b.skeletonBackend job') where
  stops s s' _ := by simp [host, stops, hstop]
  answer unit s s' _ := by
    simp only [host, skeletonBackend, Backend.decompile]
    cases readContent unit <;> rfl
  decompile unit s s' h := by
    simp only [host, skeletonBackend, Backend.decompile]
    cases readContent unit <;> exact h
  report _ _ _ h := h

include hstop in
/-- An archive is traversed alike by any job, in whatever state. -/
theorem run_skeleton (job job' : Job) (root : Entry) (s s' : State) :
    Traversal.Alike (fun u _ => u.fs = s.fs) (Traversal.run (b.host b.skeletonBackend job) root { state := s })
      (Traversal.run (b.host b.skeletonBackend job') root { state := s' }) :=
  Traversal.run_alike (host_answers_alike hstop s.fs job job') root rfl

include hstop in
/-- What comes of the traversal and the move to the output's name: until then only the temporary output differs from
before. -/
theorem deliver_concluded (index : Nat) {job : Job}
    (hpath : job.outputPath = b.destination.join (Path.ofText job.outputName))
    (hname : IsPlain (Utf8.encode job.outputName)) {before : FileSystem} (hbefore : before.WellFormed)
    {directory : Place}
    (hdir : before.directoryPlace ((pathOf before.workingDirectory).join b.destination) = .ok directory)
    {place : Place} (hn : before.get? place = none) {s : State} (hc : ChangesAt place before s.fs) :
    ∃ s', b.deliver { job with index } b.skeletonBackend place s = ((b.concluded job before).map Prod.fst, s') ∧
      (∀ e, b.concluded job before = .error e → ChangesAt place before s'.fs) ∧
      ∀ done, b.concluded job before = .ok done → Effect before (.ok done) s'.fs := by
  have hd : before.get? directory = some .directory := stands_of_locate hbefore (directoryPlace_eq_ok_iff.mp hdir)
  have houtput : b.outputDirectory? before = some directory := by rw [outputDirectory?, hdir]; rfl
  have hleads := ((outputDirectory?_eq_some_iff hbefore).mp houtput).2
  have hput : ∀ content, ChangesAt place before (s.fs.put place (.file content)) :=
    fun content => hc.trans (changesAt_put _ _ _)
  have halike := run_skeleton hstop { job with index } job job.root s { fs := before }
  unfold deliver concluded
  rw [hdir]
  simp only
  rcases hrun : Traversal.run (b.host b.skeletonBackend { job with index }) job.root { state := s } with ⟨r, t⟩
  rcases hrun' : Traversal.run (b.host b.skeletonBackend job) job.root { state := { fs := before } } with ⟨r', t'⟩
  rw [hrun, hrun'] at halike
  obtain ⟨hresult, hdraft, hfailed, hfs⟩ := halike
  simp only at hresult hdraft hfailed hfs
  subst hresult
  cases r with
  | error e =>
    refine ⟨_, rfl, fun _ _ => ?_, fun _ h => by cases h⟩
    simpa only [skeletonBackend, Backend.close, hfs] using hc
  | ok _ =>
    have hmove := moveFile_into hleads hn (hput t.draft.encode) (get?_put_self _ (ne_nil_of_free hn) _) hname
    simp only [State.say, skeletonBackend, Backend.close, hfs, hpath]
    simp only [Path.ofText] at hmove ⊢
    rw [hmove]
    cases lookUp (b.destination.join ⟨Utf8.encode job.outputName⟩) (Utf8.encode job.outputName) with
    | error e => exact ⟨_, rfl, fun _ _ => hput _, fun _ h => by cases h⟩
    | ok _ =>
      by_cases hblocked : before.get? (directory ++ [Utf8.encode job.outputName]) = some .directory
      · simp only [Except.bind, if_pos hblocked]
        exact ⟨_, rfl, fun _ _ => hput _, fun _ h => by cases h⟩
      · simp only [Except.bind, if_neg hblocked]
        have hmoved := changesAt_moved hn (hput t.draft.encode) (directory ++ [Utf8.encode job.outputName])
          (.file t.draft.encode)
        have hw := hbefore.changesAt hmoved hblocked fun _ => by rwa [List.dropLast_concat]
        have hcontent := get?_put_self ((s.fs.put place (.file t.draft.encode)).erase place)
          (ne_nil_of_get?_ne hblocked) (.file t.draft.encode)
        simp only [reportOf, ← hdraft, ← hfailed, hpath, Path.ofText]
        refine ⟨_, rfl, ?_, ?_⟩
        · intro e h
          cases h
        · intro done h
          cases h
          exact ⟨hblocked, hmoved, hcontent, hw⟩

include hk hstop in
/-- What comes of an opened job, whatever its number. -/
theorem produce_concluded (index : Nat) {job : Job}
    (hpath : job.outputPath = b.destination.join (Path.ofText job.outputName))
    (hname : IsPlain (Utf8.encode job.outputName)) {s : State} (hs : s.fs.WellFormed) :
    ∃ s', b.produce { job with index } s = ((b.concluded job s.fs).map Prod.fst, s') ∧
      Effect s.fs (b.concluded job s.fs) s'.fs := by
  unfold produce
  simp only
  cases hdir : s.fs.directoryPlace ((pathOf s.fs.workingDirectory).join b.destination) with
  | error e =>
    rw [makeFresh, hdir, concluded, hdir]
    exact ⟨s, rfl, .refl _⟩
  | ok directory =>
    obtain ⟨fs₁, place, hfresh⟩ : ∃ fs₁ place, s.fs.makeFresh ((pathOf s.fs.workingDirectory).join b.destination)
        temporaryStart temporaryEnd (.file []) = .ok (fs₁, place) := by
      rw [makeFresh, hdir]
      exact ⟨_, _, rfl⟩
    obtain ⟨above, number, -, -, hn, rfl⟩ := makeFresh_eq_ok hfresh
    have hmake : Backend.make b.settings.backend (s.fs.put place (.file [])) =
        (s.fs.put place (.file []), .ok b.skeletonBackend) := by
      rw [Backend.make, hk]
      rfl
    let start := ({ s with fs := s.fs.put place (.file []), done := 0 } : State).say index .decompiling
      ("Decompiling " ++ job.title)
    have hstart : ChangesAt place s.fs start.fs := changesAt_put _ _ _
    obtain ⟨s', hdeliver, herror, hok⟩ := deliver_concluded hstop index hpath hname hs hdir hn hstart
    rw [hfresh]
    simp only [fill, hmake]
    rw [hdeliver]
    cases hcon : b.concluded job s.fs with
    | error e => exact ⟨_, rfl, same_of_erased hn (herror e hcon)⟩
    | ok done => exact ⟨_, rfl, hok done hcon⟩

theorem openJob_index (b : Batch) (index : Nat) (title : String) (source : Path) (fs : FileSystem) :
    b.openJob index title source fs = (b.openJob 0 title source fs).map fun job => { job with index } := by
  unfold openJob
  cases openArchive fs source with
  | error e => rfl
  | ok root => cases outputName source b.settings.output.suffix <;> rfl

include hk hstop in
/-- What comes of a job, whatever its number and whatever was reported before it. -/
theorem runJob_conversion (hsuffix : IsSuffix b.settings.output.suffix) (index : Nat) (source : Path) {s : State}
    (hs : s.fs.WellFormed) :
    ∃ s', b.runJob index source s = ((b.conversion source s.fs).map Prod.fst, s') ∧
      Effect s.fs (b.conversion source s.fs) s'.fs := by
  have hstops : b.stops s = false := by rw [stops, hstop]
  unfold runJob titleFor conversion
  rw [hstops, if_neg Bool.false_ne_true]
  by_cases ha : b.settings.isArchivePath source = true
  · rw [if_neg (not_not.mpr ha), if_neg (not_not.mpr ha)]
    cases htitle : nameOf source with
    | error e => exact ⟨s, rfl, .refl _⟩
    | ok title =>
      simp only [State.say, b.openJob_index index]
      cases hopen : b.openJob 0 title source s.fs with
      | error e => exact ⟨_, rfl, .refl _⟩
      | ok job =>
        obtain ⟨hclaim, hpath⟩ := openJob_claims ha hopen
        exact produce_concluded hk hstop index hpath (claim?_plain hsuffix hclaim)
          (s := s.say index .opening ("Opening " ++ title)) hs
  · rw [if_pos ha, if_pos ha]
    exact ⟨s, rfl, .refl _⟩

include hstop in
/-- What an opened job comes to depends on the directory for its output, and on whether a directory stands at its
place. -/
theorem concluded_congr {job : Job} {fs fs' : FileSystem} (hw : fs'.workingDirectory = fs.workingDirectory)
    (hd : fs'.directoryPlace ((pathOf fs.workingDirectory).join b.destination) =
      fs.directoryPlace ((pathOf fs.workingDirectory).join b.destination))
    (hplace : ∀ directory, fs.directoryPlace ((pathOf fs.workingDirectory).join b.destination) = .ok directory →
      (fs'.get? (directory ++ [Utf8.encode job.outputName]) = some .directory ↔
        fs.get? (directory ++ [Utf8.encode job.outputName]) = some .directory)) :
    b.concluded job fs' = b.concluded job fs := by
  unfold concluded
  rw [hw, hd]
  cases hdir : fs.directoryPlace ((pathOf fs.workingDirectory).join b.destination) with
  | error e => rfl
  | ok directory =>
    obtain ⟨hresult, hdraft, hfailed, -⟩ := run_skeleton hstop job job job.root { fs := fs' } { fs }
    simp only [hplace directory hdir, reportOf]
    rcases hrun : Traversal.run (b.host b.skeletonBackend job) job.root { state := { fs := fs' } } with ⟨r, t⟩
    rcases hrun' : Traversal.run (b.host b.skeletonBackend job) job.root { state := { fs } } with ⟨r', t'⟩
    rw [hrun, hrun'] at hresult hdraft hfailed
    simp only at hresult hdraft hfailed
    subst hresult
    cases r with
    | error e => rfl
    | ok _ => simp only [hdraft, hfailed]

theorem concluded_eq_ok {job : Job} {fs : FileSystem} {report : ArchiveReport} {place : Place} {archive : Bytes}
    (h : b.concluded job fs = .ok (report, place, archive)) :
    ∃ directory, fs.directoryPlace ((pathOf fs.workingDirectory).join b.destination) = .ok directory ∧
      place = directory ++ [Utf8.encode job.outputName] ∧ fs.get? place ≠ some .directory ∧
      report.outputPath = job.outputPath := by
  unfold concluded at h
  split at h
  · cases h
  · rename_i directory hdir
    split at h
    · cases h
    · split at h
      · cases h
      · split at h
        · cases h
        · rename_i hblocked
          cases h
          exact ⟨directory, hdir, rfl, hblocked, rfl⟩

/-- A source that is converted has claimed the name that its archive is put at. -/
theorem conversion_eq_ok {source : Path} {fs : FileSystem} {report : ArchiveReport} {place : Place} {archive : Bytes}
    (h : b.conversion source fs = .ok (report, place, archive)) :
    b.outputPlace? fs source = some place ∧ fs.get? place ≠ some .directory ∧
      ∃ name, claim? b.settings source = some name ∧ report.outputPath = b.destination.join (Path.ofText name) := by
  unfold conversion at h
  split at h
  · cases h
  · rename_i ha
    split at h
    · cases h
    · split at h
      · cases h
      · rename_i job hopen
        obtain ⟨hclaim, hpath⟩ := openJob_claims (not_not.mp ha) hopen
        obtain ⟨directory, hdir, rfl, hblocked, hreport⟩ := concluded_eq_ok h
        have hd : b.outputDirectory? fs = some directory := by rw [outputDirectory?, hdir]; rfl
        refine ⟨?_, hblocked, _, hclaim, hreport.trans hpath⟩
        rw [outputPlace?, hclaim, hd]

/-- The places that the conversion of a source depends on, other than directories and the place of its output: those
that the path of the source touches and those that the path of its output does. -/
def dependencies (b : Batch) (fs : FileSystem) (source : Path) : List Place :=
  fs.touchedBy source ++
    match claim? b.settings source with
    | some name => fs.touchedBy (b.destination.join (Path.ofText name))
    | none => []

theorem mem_dependencies_iff {fs : FileSystem} {source : Path} {place : Place} :
    place ∈ b.dependencies fs source ↔ place ∈ fs.touchedBy source ∨
      ∃ name, claim? b.settings source = some name ∧ place ∈ fs.touchedBy (b.destination.join (Path.ofText name)) := by
  unfold dependencies
  cases claim? b.settings source <;> simp

theorem openJob_congr {index : Nat} {title : String} {source : Path} {fs fs' : FileSystem}
    (hread : fs'.readFile source = fs.readFile source)
    (hexists : ∀ name, outputName source b.settings.output.suffix = .ok name →
      fs'.pathExists (b.destination.join (Path.ofText name)) = fs.pathExists (b.destination.join (Path.ofText name))) :
    b.openJob index title source fs' = b.openJob index title source fs := by
  unfold openJob openArchive
  rw [hread]
  cases hname : outputName source b.settings.output.suffix with
  | error e => rfl
  | ok name => simp only [bind, Except.bind, hexists name hname]

include hstop in
/-- A source is converted alike where all directories were kept and what its conversion depends on is as it was. -/
theorem conversion_congr (hsuffix : IsSuffix b.settings.output.suffix) {source : Path} {fs fs' : FileSystem}
    (hfs : fs.WellFormed) (hw : fs'.workingDirectory = fs.workingDirectory)
    (hd : ∀ place, fs.get? place = some .directory → fs'.get? place = some .directory)
    (ht : ∀ place ∈ b.dependencies fs source, fs'.get? place = fs.get? place)
    (ho : ∀ place, b.outputPlace? fs source = some place → fs'.get? place = fs.get? place) :
    b.conversion source fs' = b.conversion source fs := by
  have hway := fun place hp => ht place (mem_dependencies_iff.mpr (.inl hp))
  have hout := fun place name hclaim hp => ht place (mem_dependencies_iff.mpr (.inr ⟨name, hclaim, hp⟩))
  unfold conversion
  by_cases ha : b.settings.isArchivePath source = true
  · rw [if_neg (not_not.mpr ha), if_neg (not_not.mpr ha)]
    have hread : fs'.readFile source = fs.readFile source := by
      rw [readFile, stat, locate_congr hw hd hway]
      rfl
    have hexists : ∀ name, outputName source b.settings.output.suffix = .ok name →
        fs'.pathExists (b.destination.join (Path.ofText name)) =
          fs.pathExists (b.destination.join (Path.ofText name)) := by
      intro name hname
      have hclaim : claim? b.settings source = some name := by rw [claim?, if_pos ha, hname]; rfl
      rw [pathExists, stat, locate_congr hw hd fun place => hout place name hclaim]
      rfl
    simp only [b.openJob_congr hread hexists]
    cases nameOf source with
    | error e => rfl
    | ok title =>
      simp only
      cases hopen : b.openJob 0 title source fs with
      | error e => rfl
      | ok job =>
        obtain ⟨hclaim, -⟩ := openJob_claims ha hopen
        have hname := (claim?_plain hsuffix hclaim).toIsSegment
        refine concluded_congr hstop hw ?_ fun directory hdir => ?_
        · -- the way to the destination is a part of the way to the output
          have hpath := locate_congr hw hd (p := (pathOf fs.workingDirectory).join b.destination) (fun place hp => by
            rw [touchedBy_from_working hfs] at hp
            exact hout place _ hclaim (touchedBy_join _ hname hp)) true
          rw [directoryPlace, hpath]
          rfl
        · rw [ho]
          rw [outputPlace?, hclaim, outputDirectory?, hdir]
          rfl
  · rw [if_pos ha, if_pos ha]

end Skeleton

end Batch

end SourceJar
