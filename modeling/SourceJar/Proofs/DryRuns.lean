import SourceJar.Discovery
import SourceJar.Proofs.ExitStatus

/-!
What a dry run foretells.

A plan lists every source that was discovered, with the path of its output; it does not look for reasons to turn a
source down. But what it lists tells which sources a run turns down beforehand: those that do not count as archives, and
archives with the output of an earlier archive in the list (`Foretold`). A source whose stem is no text has no output to
list. Then there is no plan, and a run turns that source down.

- `resultOf_comes`: what may come of a source, and for which reasons it is turned down.
- `planned_cases`: what a plan is.
- `rival?_eq_rivalIn?`: the rival of a source is listed before it with its output.
- `plan_foretells`: a plan against the run.
- `plan_lists_refused`: sources that are listed and turned down, and one that keeps the plan from being made.
-/

namespace SourceJar

open Archive FileSystem

/-- Reasons to turn a source down before anything is done for it. -/
def Failure.IsRefusal : Failure → Prop
  | .unsupportedArchive _ | .outputConflict .. | .invalidPath _ => True
  | _ => False

/-- A source was turned down beforehand. -/
def TurnedDown {β : Type} : Except Failure β → Prop
  | .ok _ => False
  | .error cause => cause.IsRefusal

theorem Midway.not_turnedDown {β : Type} {e : Except Failure β} (h : Midway e) : ¬TurnedDown e := by
  cases e with
  | ok x => exact id
  | error cause => cases cause <;> first | exact id | exact absurd h id

namespace Batch

/-! ## Reasons to turn a source down -/

/-- What may come of a source after some earlier ones in a batch that is not asked to stop. -/
inductive Comes (settings : Settings) (earlier : List Path) (source : Path) : Except Failure ArchiveReport → Prop
  | unsupported (ha : settings.isArchivePath source = false) :
      Comes settings earlier source (.error (.unsupportedArchive source.display))
  | unnamed (ha : settings.isArchivePath source = true) (hstem : source.stemText?.isSome = false) :
      Comes settings earlier source (.error (.invalidPath source.display))
  | rivalled {name : String} {first : Path} (ha : settings.isArchivePath source = true)
      (hclaim : claim? settings source = some name) (hrival : rival? settings earlier source = some first) :
      Comes settings earlier source (.error (.outputConflict name first.display))
  | worked {r : Except Failure ArchiveReport} (ha : settings.isArchivePath source = true)
      (hstem : source.stemText?.isSome = true) (hrival : rival? settings earlier source = none) (hr : Midway r) :
      Comes settings earlier source r

theorem resultOf_comes (b : Batch) (index : Nat) (source : Path) (earlier : List Path) (s : State) :
    Comes b.settings earlier source
      (b.unstopped.resultOf index source (rival? b.settings earlier source) s).1 := by
  rcases hrival : rival? b.settings earlier source with _ | first
  · have hr : (b.unstopped.resultOf index source none s).1 = (b.unstopped.runJob index source s).1 := rfl
    rw [hr]
    rcases b.runJob_cases index source s with ⟨ha, e⟩ | ⟨ha, hstem, e⟩ | ⟨ha, hstem, hmidway⟩
    · rw [e]
      exact .unsupported ha
    · rw [e]
      exact .unnamed ha hstem
    · exact .worked ha hstem hrival hmidway
  · obtain ⟨name, hclaim, -⟩ := Option.bind_eq_some_iff.mp hrival
    have ha : b.settings.isArchivePath source = true := by
      refine Classical.byContradiction fun ha => ?_
      rw [claim?, if_neg ha] at hclaim
      cases hclaim
    have hname : (outputName source b.settings.output.suffix).toOption = some name := by
      rwa [claim?, if_pos ha] at hclaim
    have hr : (b.unstopped.resultOf index source (some first) s).1 = .error (.outputConflict name first.display) := by
      simp only [resultOf, conflictFailure, unstopped, hname, Option.getD_some]
    rw [hr]
    exact .rivalled ha hclaim hrival

section Run

variable {b : Batch} {fs : FileSystem} {sources : List Path} {i : Nat} {source : Path}

theorem run_comes (hstop : b.stopAfter = none) (hmade : (fs.makeDirectories b.destination).2 = .ok ())
    (hi : sources[i]? = some source) :
    ∃ r, (b.run sources fs).1[i]? = some ⟨source, r⟩ ∧ Comes b.settings (sources.take i) source r := by
  obtain ⟨r, s', hresult, ho, -⟩ := run_step hmade hi
  have hunstopped : b.unstopped = b := by
    rw [unstopped, ← hstop]
  have hcomes := b.resultOf_comes i source (sources.take i) (b.stateAt sources fs i)
  rw [hunstopped, hresult] at hcomes
  exact ⟨r, ho, hcomes⟩

/-- If the destination cannot be made, that is what comes of every source. -/
theorem outcome_unmade (hmade : (fs.makeDirectories b.destination).2 ≠ .ok ()) (hi : sources[i]? = some source) :
    ∃ e, (b.run sources fs).1[i]? = some ⟨source, .error (.io e)⟩ := by
  cases hm : (fs.makeDirectories b.destination).2 with
  | ok _ => exact absurd hm hmade
  | error e =>
    refine ⟨e, ?_⟩
    rw [run_unmade hm, List.getElem?_map, hi]
    rfl

end Run

end Batch

/-! ## Plans -/

namespace Discovery

/-- A source is listed with the path of its output. -/
def Planned (settings : Settings) (entry : Path × Path) : Prop :=
  ∃ name, outputName entry.1 settings.output.suffix = .ok name ∧
    entry.2 = settings.output.destination.join (Path.ofText name)

/-- The first source whose stem is no text. -/
def unnamed? (sources : List Path) : Option Path := sources.find? fun source => !source.stemText?.isSome

theorem outputName_cases (settings : Settings) (source : Path) :
    (source.stemText?.isSome = false ∧
      outputName source settings.output.suffix = .error (.invalidPath source.display)) ∨
    (source.stemText?.isSome = true ∧ ∃ name, outputName source settings.output.suffix = .ok name) := by
  unfold outputName
  cases source.stemText? with
  | none => exact Or.inl ⟨rfl, rfl⟩
  | some stem =>
    refine Or.inr ⟨rfl, ?_⟩
    cases source.extensionText? with
    | none => exact ⟨_, rfl⟩
    | some extension => exact ⟨_, rfl⟩

/-- A plan lists every source that was discovered, or fails for the first one whose stem is no text. -/
theorem planned_cases {settings : Settings} {fs : FileSystem} {inputs sources : List Path}
    (h : discover settings fs inputs = .ok sources) :
    (∃ source, unnamed? sources = some source ∧ plan settings fs inputs = .error (.invalidPath source.display)) ∨
      (unnamed? sources = none ∧ ∃ planned, plan settings fs inputs = .ok planned ∧ planned.map Prod.fst = sources ∧
        ∀ entry ∈ planned, Planned settings entry) := by
  rw [plan, h]
  show (∃ source, _ ∧ sources.mapM _ = _) ∨ (_ ∧ ∃ planned, sources.mapM _ = _ ∧ _)
  clear h
  induction sources with
  | nil => exact Or.inr ⟨rfl, [], rfl, rfl, fun _ hm => absurd hm List.not_mem_nil⟩
  | cons source rest ih =>
    rw [List.mapM_cons, unnamed?]
    rcases outputName_cases settings source with ⟨hstem, e⟩ | ⟨hstem, name, e⟩
    · rw [List.find?_cons_of_pos (by simp [hstem]), e]
      exact Or.inl ⟨source, rfl, rfl⟩
    · rw [List.find?_cons_of_neg (by simp [hstem]), e]
      rcases ih with ⟨other, hother, ih⟩ | ⟨hnone, planned, ih, hsources, hplanned⟩
      · refine Or.inl ⟨other, hother, ?_⟩
        rw [ih]
        rfl
      · refine Or.inr ⟨hnone, (source, settings.output.destination.join (Path.ofText name)) :: planned, ?_,
          congrArg (source :: ·) hsources, List.forall_mem_cons.mpr ⟨⟨name, e, rfl⟩, hplanned⟩⟩
        rw [ih]
        rfl

/-- A listed source claims the name of its output if it counts as an archive. -/
theorem Planned.claim? {settings : Settings} {entry : Path × Path} (h : Planned settings entry)
    (ha : settings.isArchivePath entry.1 = true) : ∃ name, Batch.claim? settings entry.1 = some name ∧
      entry.2 = settings.output.destination.join (Path.ofText name) := by
  obtain ⟨name, hname, houtput⟩ := h
  refine ⟨name, ?_, houtput⟩
  rw [Batch.claim?, if_pos ha, hname]
  rfl

/-- The first archive of a list that has an output. -/
def rivalIn? (settings : Settings) (listed : List (Path × Path)) (output : Path) : Option Path :=
  (listed.find? fun entry => settings.isArchivePath entry.1 && entry.2 == output).map Prod.fst

/-- The rival of a source that is listed stands before it with the same output. -/
theorem rival?_eq_rivalIn? {settings : Settings} (hsuffix : IsSuffix settings.output.suffix)
    {listed : List (Path × Path)} (hlisted : ∀ entry ∈ listed, Planned settings entry) {source output : Path}
    (hplanned : Planned settings (source, output)) (ha : settings.isArchivePath source = true) :
    Batch.rival? settings (listed.map Prod.fst) source = rivalIn? settings listed output := by
  obtain ⟨name, hclaim, rfl⟩ := hplanned.claim? ha
  rw [Batch.rival?, hclaim, Option.bind_some, List.find?_map, rivalIn?]
  refine congrArg (Option.map Prod.fst) (List.find?_congr fun entry hm => ?_)
  show decide (Batch.claim? settings entry.1 = some name) = _
  by_cases he : settings.isArchivePath entry.1 = true
  · obtain ⟨name', hclaim', hpath⟩ := (hlisted entry hm).claim? he
    have hsame : entry.2 = settings.output.destination.join (Path.ofText name) ↔ name' = name := by
      rw [hpath]
      refine ⟨fun e => Utf8.encode_injective (join_injective ?_ ?_ e), fun e => e ▸ rfl⟩
      · exact (Batch.claim?_plain hsuffix hclaim').toIsSegment
      · exact (Batch.claim?_plain hsuffix hclaim).toIsSegment
    rw [hclaim', he, Bool.true_and, Bool.eq_iff_iff, decide_eq_true_iff, beq_iff_eq, hsame, Option.some.injEq]
  · have hnone : Batch.claim? settings entry.1 = none := by rw [Batch.claim?, if_neg he]
    rw [hnone, Bool.eq_false_iff.mpr he, Bool.false_and]
    rfl

end Discovery

/-! ## The plan and the run -/

namespace Batch

/-- What a plan that lists a source with an output, after some other sources, tells of what comes of the source. -/
def Foretold (settings : Settings) (listed : List (Path × Path)) (source output : Path)
    (r : Except Failure ArchiveReport) : Prop :=
  if settings.isArchivePath source then
    match Discovery.rivalIn? settings listed output with
    | some first =>
      ∃ name, output = settings.output.destination.join (Path.ofText name) ∧
        r = .error (.outputConflict name first.display)
    | none => ¬TurnedDown r
  else r = .error (.unsupportedArchive source.display)

theorem foretold_of_comes {settings : Settings} (hsuffix : IsSuffix settings.output.suffix)
    {listed : List (Path × Path)} (hlisted : ∀ entry ∈ listed, Discovery.Planned settings entry) {source output : Path}
    (hplanned : Discovery.Planned settings (source, output)) {r : Except Failure ArchiveReport}
    (h : Comes settings (listed.map Prod.fst) source r) : Foretold settings listed source output r := by
  unfold Foretold
  cases h with
  | unsupported ha =>
    rw [if_neg (Bool.eq_false_iff.mp ha)]
  | unnamed ha hstem =>
    obtain ⟨name, hname, -⟩ := hplanned
    rcases Discovery.outputName_cases settings source with ⟨-, e⟩ | ⟨hsome, -⟩
    · rw [hname] at e
      cases e
    · rw [hstem] at hsome
      cases hsome
  | rivalled ha hclaim hrival =>
    rw [Discovery.rival?_eq_rivalIn? hsuffix hlisted hplanned ha] at hrival
    obtain ⟨name, hname, houtput⟩ := hplanned.claim? ha
    obtain rfl := Option.some.inj (hclaim.symm.trans hname)
    rw [if_pos ha, hrival]
    exact ⟨_, houtput, rfl⟩
  | worked ha hstem hrival hr =>
    rw [Discovery.rival?_eq_rivalIn? hsuffix hlisted hplanned ha] at hrival
    rw [if_pos ha, hrival]
    exact hr.not_turnedDown

section Foretelling

variable {b : Batch} {fs : FileSystem} {inputs sources : List Path}

/-- A plan of sources against the batch over them that is not asked to stop. There is a plan if every stem is text; it
lists every source that was discovered, in order. If the destination can be made, those of them are turned down
beforehand that do not count as archives, and those that count and stand behind another one with their output. Of the
others, each one that is converted has the output that was planned. If some stem is no text, there is no plan, and the
first source with such a stem is turned down. -/
theorem plan_foretells (hv : b.settings.validate fs = .ok ()) (hd : b.destination = b.settings.output.destination)
    (hstop : b.stopAfter = none) (hdiscover : Discovery.discover b.settings fs inputs = .ok sources) :
    let made := (fs.makeDirectories b.destination).2 = .ok ()
    let outcomes := (b.run sources fs).1
    match Discovery.unnamed? sources with
    | some unnamed =>
      Discovery.plan b.settings fs inputs = .error (.invalidPath unnamed.display) ∧
        ∀ (i : Nat), sources[i]? = some unnamed →
          ∃ r, outcomes[i]? = some ⟨unnamed, r⟩ ∧ (TurnedDown r ↔ made)
    | none =>
      ∃ planned, Discovery.plan b.settings fs inputs = .ok planned ∧ planned.map Prod.fst = sources ∧
        ∀ (i : Nat) (source output : Path), planned[i]? = some (source, output) →
          ∃ r, outcomes[i]? = some ⟨source, r⟩ ∧
          (if made then Foretold b.settings (planned.take i) source output r else ¬TurnedDown r) ∧
          ∀ report, r = .ok report → report.outputPath = output := by
  intro made outcomes
  have hsuffix := Settings.isSuffix_of_validate hv
  rcases Discovery.planned_cases hdiscover with ⟨unnamed, hunnamed, hplan⟩ | ⟨hnone, planned, hplan, hsources, hlisted⟩
  · have hstem : unnamed.stemText?.isSome = false := by simpa using List.find?_some hunnamed
    rw [hunnamed]
    refine ⟨hplan, fun i hi => ?_⟩
    by_cases hmade : made
    · obtain ⟨r, ho, hr⟩ := run_comes hstop hmade hi
      refine ⟨r, ho, iff_of_true ?_ hmade⟩
      cases hr with
      | unsupported | unnamed | rivalled => trivial
      | worked ha hsome =>
        rw [hstem] at hsome
        cases hsome
    · obtain ⟨e, ho⟩ := outcome_unmade hmade hi
      exact ⟨_, ho, iff_of_false id hmade⟩
  · rw [hnone]
    refine ⟨planned, hplan, hsources, fun i source output hi => ?_⟩
    have hplanned : Discovery.Planned b.settings (source, output) := hlisted _ (List.mem_of_getElem? hi)
    have hsource : sources[i]? = some source := by
      rw [← hsources, List.getElem?_map, hi]
      rfl
    obtain ⟨r, ho, hr⟩ : ∃ r, outcomes[i]? = some ⟨source, r⟩ ∧
        (if made then Foretold b.settings (planned.take i) source output r else ¬TurnedDown r) := by
      by_cases hmade : made
      · obtain ⟨r, ho, hr⟩ := run_comes hstop hmade hsource
        rw [← hsources, ← List.map_take] at hr
        refine ⟨r, ho, ?_⟩
        rw [if_pos hmade]
        exact foretold_of_comes hsuffix (fun entry hm => hlisted entry (List.mem_of_mem_take hm)) hplanned hr
      · obtain ⟨e, ho⟩ := outcome_unmade hmade hsource
        refine ⟨_, ho, ?_⟩
        rw [if_neg hmade]
        exact id
    refine ⟨r, ho, hr, fun report e => ?_⟩
    rw [e] at ho
    obtain ⟨root, d, hc, -⟩ := run_complete ho
    obtain ⟨name, hname, rfl⟩ := hplanned
    obtain ⟨hnamed, hpath⟩ := hc.named
    obtain rfl := Except.ok.inj (hnamed.symm.trans hname)
    rw [hpath, hd]

end Foretelling

/-- An archive that is planned and converted, and a file that is planned and turned down. -/
theorem planned_archive_converted :
    let b := simpleBatch "out" "jar"
    let fs := holding [(["a.jar"], simpleArchive), (["notes.txt"], .file [])]
    let sources := [Path.ofText "a.jar", Path.ofText "notes.txt"]
    b.settings.validate fs = .ok () ∧ Discovery.discover b.settings fs sources = .ok sources ∧
      Discovery.plan b.settings fs sources = .ok [(Path.ofText "a.jar", Path.ofText "out/a-sources.jar"),
        (Path.ofText "notes.txt", Path.ofText "out/notes-sources.txt")] ∧
      (∃ report, (b.run sources fs).1[0]? = some ⟨Path.ofText "a.jar", .ok report⟩ ∧
        report.outputPath = Path.ofText "out/a-sources.jar") ∧
      (b.run sources fs).1[1]? = some ⟨Path.ofText "notes.txt", .error (.unsupportedArchive "notes.txt")⟩ := by
  intro b fs sources
  have hv : b.settings.validate fs = .ok () := simpleBatch_valid (by simp only [fs]; cbv)
  have hdiscover : Discovery.discover b.settings fs sources = .ok sources := by
    simp only [b, fs, sources]
    cbv
  have hplan : Discovery.plan b.settings fs sources = .ok [(Path.ofText "a.jar", Path.ofText "out/a-sources.jar"),
      (Path.ofText "notes.txt", Path.ofText "out/notes-sources.txt")] := by
    simp only [b, fs, sources]
    cbv
  have hmade : (fs.makeDirectories b.destination).2 = .ok () := by
    simp only [b, fs]
    cbv
  have hconverted : ((b.run sources fs).1[0]?.bind fun o => o.result.toOption).isSome = true := by
    simp only [b, fs, sources]
    cbv
  have hforetold := plan_foretells (b := b) hv rfl rfl hdiscover
  have hnamed : Discovery.unnamed? sources = none := by decide +kernel
  rw [hnamed] at hforetold
  obtain ⟨planned, hplanned, -, hentries⟩ := hforetold
  obtain rfl := Except.ok.inj (hplanned.symm.trans hplan)
  refine ⟨hv, hdiscover, hplan, ?_, ?_⟩
  · obtain ⟨r, ho, -, hpath⟩ := hentries 0 _ _ rfl
    rw [ho] at hconverted ⊢
    cases r with
    | error cause => cases hconverted
    | ok report => exact ⟨report, rfl, hpath report rfl⟩
  · obtain ⟨r, ho, hr, -⟩ := hentries 1 _ _ rfl
    have ha : ¬b.settings.isArchivePath (Path.ofText "notes.txt") = true := by decide +kernel
    rw [if_pos hmade, Foretold, if_neg ha] at hr
    have hname : (Path.ofText "notes.txt").display = "notes.txt" := by decide +kernel
    rw [ho, hr, hname]

/-- Of three planned sources one does not count as an archive, and one has the output of another one; and for the sake
of one name that is no text nothing is planned. -/
theorem plan_lists_refused :
    (let b := simpleBatch "out" "jar"
    let fs := holding [(["notes.txt"], .file []), (["a"], .directory), (["a", "lib.jar"], .file []),
      (["b"], .directory), (["b", "lib.jar"], .file [])]
    let sources := [Path.ofText "notes.txt", Path.ofText "a/lib.jar", Path.ofText "b/lib.jar"]
    Discovery.discover b.settings fs sources = .ok sources ∧
      Discovery.plan b.settings fs sources = .ok [(Path.ofText "notes.txt", Path.ofText "out/notes-sources.txt"),
        (Path.ofText "a/lib.jar", Path.ofText "out/lib-sources.jar"),
        (Path.ofText "b/lib.jar", Path.ofText "out/lib-sources.jar")] ∧
      (b.run sources fs).1[0]? = some ⟨Path.ofText "notes.txt", .error (.unsupportedArchive "notes.txt")⟩ ∧
      (b.run sources fs).1[2]? =
        some ⟨Path.ofText "b/lib.jar", .error (.outputConflict "lib-sources.jar" "a/lib.jar")⟩) ∧
    (let b := simpleBatch "out" "jar"
    let unnamed : Bytes := [0xFF, 0x2E, 0x6A, 0x61, 0x72]
    let fs : FileSystem := { nodes := [([unnamed], .file [])], workingDirectory := [], temporaryDirectory := [] }
    Discovery.discover b.settings fs [⟨unnamed⟩] = .ok [⟨unnamed⟩] ∧
      Discovery.plan b.settings fs [⟨unnamed⟩] = .error (.invalidPath "\uFFFD.jar")) := by
  constructor
  · intro b fs sources
    have hdiscover : Discovery.discover b.settings fs sources = .ok sources := by
      simp only [b, fs, sources]
      cbv
    refine ⟨hdiscover, ?_, ?_⟩
    · simp only [b, fs, sources]
      cbv
    · have hrun : ((b.run sources fs).1[0]?, (b.run sources fs).1[2]?) =
          (some ⟨Path.ofText "notes.txt", .error (.unsupportedArchive "notes.txt")⟩,
            some ⟨Path.ofText "b/lib.jar", .error (.outputConflict "lib-sources.jar" "a/lib.jar")⟩) := by
        simp only [b, fs, sources]
        cbv
      exact Prod.mk.inj hrun
  · intro b unnamed fs
    simp only [b, fs, unnamed]
    constructor
    · cbv
    · cbv

end Batch

end SourceJar
