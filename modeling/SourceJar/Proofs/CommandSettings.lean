import SourceJar.Backend.Basic
import SourceJar.Proofs.Words

/-!
Settings and the backends that are made from them.

The check of the settings asks whether anything is left of a command when it is trimmed; a backend is made from the words
of the command. Both come to the same: the command has a word. So settings that pass the check make a backend, unless
its directory cannot be made (`RootFails`), and an external backend without a word in its command is refused by both.

- `Settings.hasCommand_iff`, `Settings.validate_without_command`: what the check asks of an external backend.
- `Backend.make_of_command`, `Backend.make_without_command`: what is made, with a command and without one.
- `make_agrees_with_validate`: the check against what is made.
-/

namespace SourceJar

open FileSystem

/-! ## Commands -/

namespace ExternalCommand

/-- The program and its arguments. -/
def words (c : ExternalCommand) : List String := c.program :: c.arguments

theorem parse_eq_ok {line : String} {c : ExternalCommand} : parse line = .ok c ↔ Text.words line = c.words := by
  rcases c with ⟨program, arguments⟩
  rw [parse, words]
  split
  · rename_i h
    simp [h]
  · rename_i h
    simp [h]

theorem parse_eq_error {line : String} (h : ¬Text.HasWord line) : parse line = .error .commandEmpty := by
  rw [parse, Text.words_eq_nil_iff.mpr h]

theorem exists_parse {line : String} (h : Text.HasWord line) : ∃ c, parse line = .ok c := by
  obtain ⟨program, arguments, hw⟩ := List.exists_cons_of_ne_nil fun e => Text.words_eq_nil_iff.mp e h
  exact ⟨⟨program, arguments⟩, parse_eq_ok.mpr hw⟩

/-- A command that is written with single blanks between its words is the same command. -/
theorem parse_intercalate {line : String} {c : ExternalCommand} (h : parse line = .ok c) :
    parse (" ".intercalate c.words) = .ok c := by
  rw [parse_eq_ok] at h ⊢
  rw [← h, Text.words_intercalate]

end ExternalCommand

/-! ## The check of the settings -/

namespace Settings

variable {s : Settings}

theorem hasCommand_iff : s.hasCommand = true ↔ ∃ line, s.backend.command = some line ∧ Text.HasWord line := by
  rw [hasCommand]
  cases s.backend.command with
  | none => simp
  | some line =>
    have htrim : (!(Text.trim line).isEmpty) = true ↔ Text.HasWord line := by
      rw [Bool.not_eq_true', ← Bool.not_eq_true, Text.trim_isEmpty_iff, Classical.not_not]
    simp [htrim]

/-- The settings with the skeleton backend in place of the one asked for. -/
def withSkeleton (s : Settings) : Settings := { s with backend := { s.backend with kind := .skeleton } }

/-- An external backend without a command is a fault, and it is the one that is found unless an earlier one is. -/
theorem validate_without_command (hk : s.backend.kind ≠ .skeleton) (hc : ¬s.hasCommand = true) (fs : FileSystem) :
    ∃ fault, s.validate fs = .error fault ∧
      (s.withSkeleton.validate fs = .ok () → fault = .commandMissing s.backend.kind) := by
  have hfault : s.backend.kind ≠ .skeleton ∧ ¬s.hasCommand = true := ⟨hk, hc⟩
  have hsame : s.withSkeleton.output = s.output ∧ s.withSkeleton.jobs = s.jobs := ⟨rfl, rfl⟩
  rw [validate, validate, hsame.1, hsame.2, if_pos hfault]
  split
  · exact ⟨_, rfl, fun h => by cases h⟩
  split
  · exact ⟨_, rfl, fun h => by cases h⟩
  split
  · exact ⟨_, rfl, fun h => by cases h⟩
  split
  · exact ⟨_, rfl, fun h => by cases h⟩
  · exact ⟨_, rfl, fun _ => rfl⟩

/-- Settings that pass the check have a command if their backend needs one. -/
theorem hasCommand_of_valid {fs : FileSystem} (hvalid : s.validate fs = .ok ()) (hk : s.backend.kind ≠ .skeleton) :
    s.hasCommand = true := by
  refine Classical.byContradiction fun hc => ?_
  obtain ⟨fault, hfault, -⟩ := validate_without_command hk hc fs
  rw [hvalid] at hfault
  cases hfault

end Settings

/-! ## Making a backend -/

namespace Backend

/-- The command that a backend runs. -/
def command? : Backend → Option ExternalCommand
  | .skeleton _ => none
  | .stream command => some command
  | .tempfile command _ _ => some command

/-- Why the directory of a temp-file backend cannot be made: the directory asked for is not there and cannot be made,
or there can be none in it, or in that of the system. -/
inductive RootFails : (asked : Option Path) → (fs : FileSystem) → (cause : IoFault) → Prop
  | above {directory : Path} {fs fs' : FileSystem} {cause : IoFault} :
      fs.makeDirectories directory = (fs', .error cause) → RootFails (some directory) fs cause
  | inAsked {directory : Path} {fs fs' : FileSystem} {cause : IoFault} : fs.makeDirectories directory = (fs', .ok ()) →
      fs'.makeFresh ((pathOf fs'.workingDirectory).join directory) rootStart "" .directory = .error cause →
      RootFails (some directory) fs cause
  | inSystem {fs : FileSystem} {cause : IoFault} :
      fs.makeFresh (pathOf fs.temporaryDirectory) rootStart "" .directory = .error cause → RootFails none fs cause

theorem makeRoot_cases (command : ExternalCommand) (base : Path) (fs : FileSystem) :
    (∃ root place, (makeRoot command base fs).2 = .ok (.tempfile command root place)) ∨
      ∃ cause, (makeRoot command base fs).2 = .error (.io cause) ∧
        fs.makeFresh base rootStart "" .directory = .error cause := by
  rw [makeRoot]
  cases hfresh : fs.makeFresh base rootStart "" .directory with
  | error cause => exact Or.inr ⟨cause, rfl, rfl⟩
  | ok made => exact Or.inl ⟨_, _, rfl⟩

theorem makeTempfile_cases (command : ExternalCommand) (asked : Option Path) (fs : FileSystem) :
    (∃ root place, (makeTempfile command asked fs).2 = .ok (.tempfile command root place)) ∨
      ∃ cause, (makeTempfile command asked fs).2 = .error (.io cause) ∧ RootFails asked fs cause := by
  unfold makeTempfile
  cases asked with
  | none => exact (makeRoot_cases command _ fs).imp_right fun ⟨cause, h, hfresh⟩ => ⟨cause, h, .inSystem hfresh⟩
  | some directory =>
    rcases hmade : fs.makeDirectories directory with ⟨fs', cause | made⟩
    · simp only [hmade]
      exact Or.inr ⟨cause, rfl, .above hmade⟩
    · simp only [hmade]
      exact (makeRoot_cases command _ fs').imp_right fun ⟨cause, h, hfresh⟩ => ⟨cause, h, .inAsked hmade hfresh⟩

variable {s : BackendSettings}

/-- An external backend is made of the command of the settings, if it has one. -/
theorem make_of_command (hk : s.kind ≠ .skeleton) {command : ExternalCommand} (h : commandOf s = .ok command)
    (fs : FileSystem) :
    (∃ b, (make s fs).2 = .ok b ∧ b.kind = s.kind ∧ b.command? = some command) ∨
      s.kind = .tempfile ∧ ∃ cause, (make s fs).2 = .error (.io cause) ∧ RootFails s.temporaryDirectory fs cause := by
  rw [make]
  cases hkind : s.kind with
  | skeleton => exact absurd hkind hk
  | stream =>
    rw [h]
    exact Or.inl ⟨_, rfl, rfl, rfl⟩
  | tempfile =>
    rw [h]
    rcases makeTempfile_cases command s.temporaryDirectory fs with ⟨root, place, e⟩ | hfails
    · exact Or.inl ⟨_, e, rfl, rfl⟩
    · exact Or.inr ⟨rfl, hfails⟩

/-- Without a command no external backend is made, and nothing is done. -/
theorem make_without_command (hk : s.kind ≠ .skeleton) {fault : Failure} (h : commandOf s = .error fault)
    (fs : FileSystem) : make s fs = (fs, .error fault) := by
  rw [make]
  cases hkind : s.kind with
  | skeleton => exact absurd hkind hk
  | stream => rw [h]
  | tempfile => rw [h]

theorem commandOf_eq_ok_iff {command : ExternalCommand} :
    commandOf s = .ok command ↔ ∃ line, s.command = some line ∧ ExternalCommand.parse line = .ok command := by
  rw [commandOf]
  cases s.command with
  | none => simp
  | some line => cases hparse : ExternalCommand.parse line <;> simp [hparse]

/-- The command of an external backend that is made is that of the settings. -/
theorem commandOf_of_made (hk : s.kind ≠ .skeleton) {fs : FileSystem} {b : Backend} (hb : (make s fs).2 = .ok b) :
    ∃ command, commandOf s = .ok command ∧ b.command? = some command := by
  cases h : commandOf s with
  | error fault =>
    rw [make_without_command hk h] at hb
    cases hb
  | ok command =>
    refine ⟨command, rfl, ?_⟩
    rcases make_of_command hk h fs with ⟨made, hmade, -, hof⟩ | ⟨-, cause, hcause, -⟩
    · rw [hb] at hmade
      cases hmade
      exact hof
    · rw [hb] at hcause
      cases hcause

/-- What is missing in settings whose command has no word. -/
theorem commandOf_eq_error (h : ∀ line, s.command = some line → ¬Text.HasWord line) :
    commandOf s = .error (match s.command with
      | none => .backend (.commandMissing s.kind)
      | some _ => .settings .commandEmpty) := by
  rw [commandOf]
  cases hc : s.command with
  | none => rfl
  | some line => simp only [ExternalCommand.parse_eq_error (h line hc)]

end Backend

/-! ## The check against what is made -/

/-- Settings that pass the check make the backend they ask for, unless its directory cannot be made. -/
theorem Backend.make_of_valid {s : Settings} {earlier : FileSystem} (hvalid : s.validate earlier = .ok ())
    (fs : FileSystem) :
    (∃ b, (make s.backend fs).2 = .ok b ∧ b.kind = s.backend.kind) ∨
      s.backend.kind = .tempfile ∧ ∃ cause, (make s.backend fs).2 = .error (.io cause) ∧
        RootFails s.backend.temporaryDirectory fs cause := by
  by_cases hk : s.backend.kind = .skeleton
  · refine Or.inl ⟨.skeleton { includePrivate := s.backend.includePrivate }, ?_, hk.symm⟩
    rw [make, hk]
  · obtain ⟨line, hline, hword⟩ := Settings.hasCommand_iff.mp (Settings.hasCommand_of_valid hvalid hk)
    obtain ⟨command, hparse⟩ := ExternalCommand.exists_parse hword
    have h : commandOf s.backend = .ok command := commandOf_eq_ok_iff.mpr ⟨line, hline, hparse⟩
    exact (make_of_command hk h fs).imp_left fun ⟨b, hb, hkind, _⟩ => ⟨b, hb, hkind⟩

/-- The check of the settings and the making of a backend, whether or not the files are the same at both times. Settings
that pass the check make the backend they ask for, unless it is a temp-file backend whose directory cannot be made. For
an external backend whose command is missing, or has no word, the check fails, and does so for that very reason if there
is no other; no backend is made either, and no file is touched. The command of a backend that is made has the runs of
the command in the settings for its words, in order, so the same words with single blanks between them spell it too. -/
theorem make_agrees_with_validate (s : Settings) (fs : FileSystem) :
    (∀ earlier, s.validate earlier = .ok () →
      (∃ b, (Backend.make s.backend fs).2 = .ok b ∧ b.kind = s.backend.kind) ∨
        s.backend.kind = .tempfile ∧ ∃ cause, (Backend.make s.backend fs).2 = .error (.io cause) ∧
          Backend.RootFails s.backend.temporaryDirectory fs cause) ∧
    (s.backend.kind ≠ .skeleton → (∀ line, s.backend.command = some line → ¬Text.HasWord line) →
      (∀ earlier, ∃ fault, s.validate earlier = .error fault ∧
        (s.withSkeleton.validate earlier = .ok () → fault = .commandMissing s.backend.kind)) ∧
      Backend.make s.backend fs = (fs, .error (match s.backend.command with
        | none => .backend (.commandMissing s.backend.kind)
        | some _ => .settings .commandEmpty))) ∧
    ∀ b, (Backend.make s.backend fs).2 = .ok b → s.backend.kind ≠ .skeleton →
      ∃ line command, s.backend.command = some line ∧ b.command? = some command ∧
        Text.AreRuns line.toList (command.words.map String.toList) ∧
        ExternalCommand.parse (" ".intercalate command.words) = .ok command := by
  refine ⟨fun earlier hvalid => Backend.make_of_valid hvalid fs, fun hk hwordless => ⟨fun earlier => ?_, ?_⟩,
    fun b hb hk => ?_⟩
  · refine Settings.validate_without_command hk (fun hc => ?_) earlier
    obtain ⟨line, hline, hword⟩ := Settings.hasCommand_iff.mp hc
    exact hwordless line hline hword
  · exact Backend.make_without_command hk (Backend.commandOf_eq_error hwordless) fs
  · obtain ⟨command, h, hof⟩ := Backend.commandOf_of_made hk hb
    obtain ⟨line, hline, hparse⟩ := Backend.commandOf_eq_ok_iff.mp h
    have hruns := Text.words_areRuns line
    rw [ExternalCommand.parse_eq_ok.mp hparse] at hruns
    exact ⟨line, command, hline, hof, hruns, ExternalCommand.parse_intercalate hparse⟩

end SourceJar
