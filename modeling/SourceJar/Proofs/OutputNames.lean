import SourceJar.Proofs.Scanning

/-!
The names of outputs.

The name of an output is the file name of its source, with the suffix between stem and extension. Whatever dots stand
in the stem and in the suffix, the last dot of the name is the one in front of the extension, so the name comes apart
into the pieces it was put together from: it tells the file name of its source, and that it is the name of an output.
There is no such name for a source whose stem is no text.

- `outputName_eq_ok_iff`: which sources an output is named for.
- `outputName_faithful`: what the name of an output tells.
- `no_name_without_text`: an archive that no output can be named for.
-/

namespace SourceJar

open FileSystem

theorem Path.fileName?_plain {name : Bytes} (h : IsPlain name) : fileName? ⟨name⟩ = some name := by
  rw [fileName?, components_plain h]
  rfl

/-- The text of an extension is one of its bytes only. -/
theorem Path.extension?_of_text {p : Path} {extension : String} (h : p.extensionText? = some extension) :
    p.extension? = some (Utf8.encode extension) := by
  obtain ⟨bytes, hbytes, hdecode⟩ := Option.bind_eq_some_iff.mp h
  rw [hbytes, Utf8.decode?_eq_some_iff.mp hdecode]

theorem Settings.isArchivePath_congr (s : Settings) {p q : Path} (h : p.extensionText? = q.extensionText?) :
    s.isArchivePath p = s.isArchivePath q := by
  rw [isArchivePath, isArchivePath, h]

/-- An output is named for the sources whose file name is its name without the suffix. -/
theorem outputName_eq_ok_iff {source : Path} {suffix stem extension : String} (hs : stem ≠ "")
    (hdot : '.' ∉ extension.toList) (he : source.extensionText?.isSome = true) :
    outputName source suffix = .ok (stem ++ suffix ++ "." ++ extension) ↔
      source.fileName? = some (Utf8.encode stem ++ Path.dot :: Utf8.encode extension) := by
  constructor
  · intro h
    obtain ⟨extension', he'⟩ := Option.isSome_iff_exists.mp he
    cases hs' : source.stemText? with
    | none => simp [outputName, hs'] at h
    | some stem' =>
      rw [outputName_of_texts hs' he'] at h
      have hbytes := congrArg Utf8.encode (Except.ok.inj h)
      rw [Utf8.encode_output, Utf8.encode_output] at hbytes
      -- both sides are cut at their last dot
      have hparts := congrArg Path.stemAndExtension hbytes
      rw [Path.stemAndExtension_encode (append_suffix_ne_empty (Path.stemText?_plain hs').1 _)
          (Path.extensionText?_plain he').1,
        Path.stemAndExtension_encode (append_suffix_ne_empty hs _) hdot] at hparts
      obtain ⟨hstems, hextensions⟩ := Prod.mk.inj hparts
      obtain rfl : stem' = stem := by
        have hlists := congrArg String.toList (Utf8.encode_injective hstems)
        rw [String.toList_append, String.toList_append] at hlists
        exact String.toList_inj.mp (List.append_cancel_right hlists)
      obtain rfl := Utf8.encode_injective (Option.some.inj hextensions)
      exact Path.fileName?_of_texts hs' he'
  · intro h
    obtain ⟨hstem, hextension⟩ := Path.texts_of_fileName? hs hdot h
    exact outputName_of_texts hstem hextension

/-- What the name of an output tells, for a source that counts as an archive. If the stem of the source is text, its
output has a name. This is the name of a file in a directory, it has the extension of the source and counts as an
archive, it is not the name of the source itself, and it is recognised as the name of an output. Another archive has an
output of this name exactly if it has the same file name. If the stem is no text, that is the fault. -/
theorem outputName_faithful {settings : Settings} (hsuffix : IsSuffix settings.output.suffix) {p q : Path}
    (hp : settings.isArchivePath p = true) (hq : settings.isArchivePath q = true) :
    match p.stemText? with
    | none => outputName p settings.output.suffix = .error (.invalidPath p.display)
    | some _ => ∃ name, outputName p settings.output.suffix = .ok name ∧
        (Path.ofText name).components = [.name (Utf8.encode name)] ∧
        (Path.ofText name).extension? = p.extension? ∧ settings.isArchivePath (Path.ofText name) = true ∧
        p.fileName? ≠ some (Utf8.encode name) ∧ Discovery.isGenerated settings (Path.ofText name) = true ∧
        (outputName q settings.output.suffix = .ok name ↔ q.fileName? = p.fileName?) := by
  obtain ⟨extension, he⟩ := Settings.extensionText?_of_isArchivePath hp
  obtain ⟨extension', he'⟩ := Settings.extensionText?_of_isArchivePath hq
  cases hs : p.stemText? with
  | none =>
    show outputName p settings.output.suffix = _
    rw [outputName, hs]
  | some stem =>
    have hne := (Path.stemText?_plain hs).1
    have hdot := (Path.extensionText?_plain he).1
    obtain ⟨name, hn⟩ : ∃ name, name = stem ++ settings.output.suffix ++ "." ++ extension := ⟨_, rfl⟩
    have hname : outputName p settings.output.suffix = .ok name := hn ▸ outputName_of_texts hs he
    have hbytes : Utf8.encode name = Utf8.encode (stem ++ settings.output.suffix) ++ Path.dot :: Utf8.encode extension :=
      hn ▸ Utf8.encode_output ..
    have hplain := outputName_plain hsuffix he hname
    have hown : (Path.ofText name).fileName? = some (Utf8.encode name) := Path.fileName?_plain hplain
    have htext : (Path.ofText name).extensionText? = some extension :=
      (Path.texts_of_fileName? (append_suffix_ne_empty hne _) hdot (hown.trans (congrArg some hbytes))).2
    have hclaim : Batch.claim? settings p = some name := by
      rw [Batch.claim?, if_pos hp, hname]
      rfl
    refine ⟨name, hname, Path.components_plain hplain, ?_, ?_, ?_, Discovery.isGenerated_of_claim? hclaim hown, ?_⟩
    · rw [Path.extension?_of_text htext, Path.extension?_of_text he]
    · rw [settings.isArchivePath_congr (htext.trans he.symm), hp]
    · -- the suffix makes the name longer
      rw [Path.fileName?_of_texts hs he, hbytes, Utf8.encode_append]
      intro h
      have hlength := congrArg List.length (Option.some.inj h)
      have hpos : Utf8.encode settings.output.suffix ≠ [] := fun e => hsuffix.ne_empty (Utf8.encode_injective e)
      have := List.length_pos_iff.mpr hpos
      simp only [List.length_append, List.length_cons] at hlength
      omega
    · rw [hn, outputName_eq_ok_iff hne hdot (Option.isSome_of_eq_some he'), Path.fileName?_of_texts hs he]

/-- Two archives of one name with dots at its front and side by side, and a suffix that begins with a dot. -/
theorem dotted_archives_share_output :
    let settings : Settings := { output := { destination := Path.ofText "out", suffix := ".x" }, jobs := 1 }
    let p := Path.ofText "a/..lib..jar"
    let q := Path.ofText "b/..lib..jar/."
    IsSuffix settings.output.suffix ∧ settings.isArchivePath p = true ∧ settings.isArchivePath q = true ∧
      outputName p settings.output.suffix = .ok "..lib..x.jar" ∧
      (Path.ofText "..lib..x.jar").components = [.name (Utf8.encode "..lib..x.jar")] ∧
      Discovery.isGenerated settings (Path.ofText "..lib..x.jar") = true ∧
      outputName q settings.output.suffix = .ok "..lib..x.jar" := by
  intro settings p q
  have hsuffix : IsSuffix settings.output.suffix := ⟨by decide, by decide⟩
  have hp : settings.isArchivePath p = true := by
    simp only [settings, p]
    cbv
  have hq : settings.isArchivePath q = true := by
    simp only [settings, q]
    cbv
  have hstem : p.stemText? = some "..lib." := by
    simp only [p]
    cbv
  have hfile : q.fileName? = p.fileName? := by
    simp only [p, q]
    cbv
  have houtput : outputName p settings.output.suffix = .ok "..lib..x.jar" := by
    simp only [settings, p]
    cbv
  have h := outputName_faithful hsuffix hp hq
  rw [hstem] at h
  obtain ⟨name, hname, hsingle, -, -, -, hgenerated, hother⟩ := h
  obtain rfl := Except.ok.inj (hname.symm.trans houtput)
  exact ⟨hsuffix, hp, hq, hname, hsingle, hgenerated, hother.mpr hfile⟩

/-- A source whose stem is no text counts as an archive, and no output can be named for it. -/
theorem no_name_without_text :
    let settings : Settings := { output := { destination := Path.ofText "out" }, jobs := 1 }
    let fs : FileSystem := { nodes := [], workingDirectory := [], temporaryDirectory := [] }
    let p : Path := ⟨[0xFF, 0x2E, 0x6A, 0x61, 0x72]⟩
    settings.validate fs = .ok () ∧ settings.isArchivePath p = true ∧
      outputName p settings.output.suffix = .error (.invalidPath "\uFFFD.jar") := by
  intro settings fs p
  have hnofile : fs.isFile settings.output.destination = false := by
    simp only [fs, settings]
    cbv
  refine ⟨?_, ?_, ?_⟩
  · simp [Settings.validate, hnofile, settings]
  · simp only [settings, p]
    cbv
  · simp only [settings, p]
    cbv

end SourceJar
