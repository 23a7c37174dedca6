import SourceJar.Proofs.Decoding
import SourceJar.Proofs.Following
import SourceJar.Settings.Basic

/-!
The names along a path.

A path leads on from where it starts along its names. Joining paths joins their names, so where a joined
path leads is known from where the first part leads.

- `namesOf_join`, `isAbsolute_join`, `endsInSlash_join`: the names of a joined path.
- `namesOf_pathOf`: the path of a place spells the place.
- `locate_eq_ok_iff`, `locate_join`, `locate_congr`: walks along the names of a path.
- `outputName_plain`: the name of an output is a single name, and no `.` or `..`.
-/

namespace SourceJar

/-! ## Cutting joined sequences -/

namespace Split

variable {α : Type} [DecidableEq α]

theorem splitOn_append_cons (sep : α) (front back : List α) :
    splitOn sep (front ++ sep :: back) = splitOn sep front ++ splitOn sep back := by
  induction front with
  | nil => simp [splitOn]
  | cons x rest ih =>
    rw [List.cons_append, splitOn, splitOn, ih]
    split
    · rfl
    · obtain ⟨piece, pieces, hs⟩ := List.exists_cons_of_ne_nil (splitOn_ne_nil sep rest)
      rw [hs]
      rfl

theorem splitOn_of_notMem {sep : α} {whole : List α} (h : sep ∉ whole) : splitOn sep whole = [whole] := by
  induction whole with
  | nil => rfl
  | cons x rest ih =>
    have hx : x ≠ sep := fun e => h (e.symm ▸ List.mem_cons_self)
    rw [splitOn, if_neg hx, ih (List.not_mem_of_not_mem_cons h)]

end Split

namespace FileSystem

/-! ## Names of joined paths -/

theorem namesOf_of_bytes {front back : Bytes} :
    namesOf ⟨front ++ Path.slash :: back⟩ = namesOf ⟨front⟩ ++ namesOf ⟨back⟩ := by
  simp only [namesOf, Split.splitOn_append_cons, List.filter_append]

theorem namesOf_segment {name : Bytes} (h : IsSegment name) : namesOf ⟨name⟩ = [name] := by
  simp [namesOf, Split.splitOn_of_notMem h.no_slash, h.ne_nil]

theorem isAbsolute_segment {name : Bytes} (h : IsSegment name) : Path.isAbsolute ⟨name⟩ = false := by
  rw [Path.isAbsolute, beq_eq_false_iff_ne]
  exact fun e => h.no_slash (List.mem_of_head? e)

theorem endsInSlash_segment {name : Bytes} (h : IsSegment name) : endsInSlash ⟨name⟩ = false := by
  rw [endsInSlash, beq_eq_false_iff_ne]
  exact fun e => h.no_slash (List.mem_of_getLast? e)

section Join

variable {p : Path} (base : Path)

theorem join_bytes (hp : p.isAbsolute = false) :
    (base.join p).bytes = base.bytes ++ p.bytes ∧ (base.bytes = [] ∨ base.bytes.getLast? = some Path.slash) ∨
      (base.join p).bytes = base.bytes ++ Path.slash :: p.bytes ∧ base.bytes ≠ [] := by
  rw [Path.join, hp]
  simp only [Bool.false_eq_true, if_false]
  split
  · exact Or.inl ⟨rfl, ‹_›⟩
  · exact Or.inr ⟨rfl, fun e => ‹¬_› (Or.inl e)⟩

variable {base}

theorem namesOf_join (hp : p.isAbsolute = false) : namesOf (base.join p) = namesOf base ++ namesOf p := by
  have h : ∀ q : Path, namesOf q = namesOf ⟨q.bytes⟩ := fun _ => rfl
  rcases join_bytes base hp with ⟨e, hb | hb⟩ | ⟨e, -⟩
  · rw [h, e, hb, h base, hb]; rfl
  · obtain ⟨front, hf⟩ := List.getLast?_eq_some_iff.mp hb
    rw [h, e, h base, hf, List.append_assoc, List.singleton_append, namesOf_of_bytes, namesOf_of_bytes]
    simp [namesOf, Split.splitOn]
  · rw [h, e, namesOf_of_bytes]

theorem isAbsolute_join (hp : p.isAbsolute = false) : (base.join p).isAbsolute = base.isAbsolute := by
  rcases join_bytes base hp with ⟨e, hb | hb⟩ | ⟨e, hb⟩
  · simpa [Path.isAbsolute, e, hb] using hp
  · have hne : base.bytes ≠ [] := by rintro h; rw [h] at hb; cases hb
    simp [Path.isAbsolute, e, List.head?_append, List.head?_eq_some_head hne]
  · simp [Path.isAbsolute, e, List.head?_append, List.head?_eq_some_head hb]

theorem endsInSlash_join (hp : p.isAbsolute = false) (hne : p.bytes ≠ []) :
    endsInSlash (base.join p) = endsInSlash p := by
  rcases join_bytes base hp with ⟨e, -⟩ | ⟨e, -⟩
  · simp [endsInSlash, e, List.getLast?_append, List.getLast?_eq_some_getLast hne]
  · simp [endsInSlash, e, List.getLast?_append, List.getLast?_cons, List.getLast?_eq_some_getLast hne]

end Join

/-- The path of a place spells the place. -/
theorem join_injective {base : Path} {name name' : Bytes} (hn : IsSegment name) (hn' : IsSegment name')
    (h : base.join ⟨name⟩ = base.join ⟨name'⟩) : name = name' := by
  have hnames := congrArg namesOf h
  rw [namesOf_join (isAbsolute_segment hn), namesOf_join (isAbsolute_segment hn'), namesOf_segment hn,
    namesOf_segment hn'] at hnames
  exact (List.cons.inj (List.append_cancel_left hnames)).1

theorem namesOf_pathOf {place : Place} (h : ∀ name ∈ place, IsSegment name) : namesOf (pathOf place) = place := by
  have hrow : ∀ (first : Bytes) (more : Place), (∀ name ∈ first :: more, IsSegment name) →
      namesOf ⟨first ++ more.flatMap fun name => Path.slash :: name⟩ = first :: more := by
    intro first more
    induction more generalizing first with
    | nil =>
      intro h
      simpa using namesOf_segment (h first List.mem_cons_self)
    | cons second more ih =>
      intro h
      have hmore := ih second fun name hn => h name (List.mem_cons_of_mem _ hn)
      rw [List.flatMap_cons, List.cons_append, namesOf_of_bytes, hmore, namesOf_segment (h first List.mem_cons_self)]
      rfl
  cases place with
  | nil => rfl
  | cons first more =>
    have := hrow first more h
    rw [pathOf, List.flatMap_cons, List.cons_append, ← List.nil_append (Path.slash :: _), namesOf_of_bytes, this]
    · rfl
    · exact List.cons_ne_nil _ _

theorem isAbsolute_pathOf (place : Place) : (pathOf place).isAbsolute = true := by
  cases place with
  | nil => rfl
  | cons first more => rfl

/-! ## Walks along a path -/

/-- Where a path starts. -/
def startOf (fs : FileSystem) (p : Path) : Place := if p.isAbsolute then [] else fs.workingDirectory

/-- Whether a walk along a path is begun at all. -/
structure Accepts (p : Path) : Prop where
  no_nul : p.bytes.contains 0 = false
  ne_nil : p.bytes ≠ []
  length_le : p.bytes.length ≤ maxPath

theorem locate_of_accepts {p : Path} (hp : Accepts p) (fs : FileSystem) (follow : Bool) :
    fs.locate follow p =
      (fs.walk follow maxLinks (fs.startOf p) (namesOf p) (endsInSlash p)).mapError IoFault.os := by
  rw [locate, hp.no_nul, if_neg Bool.false_ne_true, if_neg hp.ne_nil, if_neg (Nat.not_lt.mpr hp.length_le)]
  simp only [startOf]
  split <;> rename_i e <;> rw [e] <;> rfl

/-- A path leads to a spot exactly if its names do. -/
theorem locate_eq_ok_iff {fs : FileSystem} {follow : Bool} {p : Path} {spot : Spot} :
    fs.locate follow p = .ok spot ↔
      Accepts p ∧ Leads fs follow maxLinks (fs.startOf p) (namesOf p) (endsInSlash p) spot := by
  have hmap : ∀ e : Except Errno Spot, e.mapError IoFault.os = .ok spot ↔ e = .ok spot := by
    rintro (e | spot') <;> simp [Except.mapError]
  by_cases hp : Accepts p
  · rw [locate_of_accepts hp, hmap, walk_eq_ok_iff]
    simp [hp]
  · refine iff_of_false (fun h => hp ?_) fun h => hp h.1
    unfold locate at h
    split at h
    · cases h
    · split at h
      · cases h
      · split at h
        · cases h
        · exact ⟨by simp_all, ‹_›, Nat.not_lt.mp ‹_›⟩

/-- The places other than directories that a walk along a path comes to. -/
def touchedBy (fs : FileSystem) (p : Path) : List Place := fs.touched maxLinks (fs.startOf p) (namesOf p)

/-- The path of a name in a directory touches what the directory's path touches. -/
theorem touchedBy_join {fs : FileSystem} (base : Path) {name : Bytes} (hname : IsSegment name) {place : Place}
    (h : place ∈ fs.touchedBy base) : place ∈ fs.touchedBy (base.join ⟨name⟩) := by
  have hrel := isAbsolute_segment hname
  rw [touchedBy, namesOf_join hrel, startOf, isAbsolute_join hrel]
  exact touched_append _ h

/-- A path leads where it led before if all directories were kept and what it touches is as it was. -/
theorem locate_congr {fs fs' : FileSystem} (hw : fs'.workingDirectory = fs.workingDirectory)
    (hd : ∀ place, fs.get? place = some .directory → fs'.get? place = some .directory) {p : Path}
    (ht : ∀ place ∈ fs.touchedBy p, fs'.get? place = fs.get? place) (follow : Bool) :
    fs'.locate follow p = fs.locate follow p := by
  have hwalk := walk_congr hd follow maxLinks (fs.startOf p) (namesOf p) (endsInSlash p) ht
  rw [startOf] at hwalk
  simp only [locate, hw, hwalk]

end FileSystem

/-! ## The parts of a file name -/

/-- Whether some bytes are a name that a path goes down along. -/
structure IsPlain (name : Bytes) : Prop extends FileSystem.IsSegment name where
  ne_here : name ≠ [Path.dot]
  ne_parent : name ≠ [Path.dot, Path.dot]

namespace Path

theorem isPlain_of_component? {piece name : Bytes} (h : component? piece = some (.name name))
    (hs : slash ∉ piece) : IsPlain name := by
  unfold component? at h
  split at h
  · cases h
  · split at h
    · cases h
    · obtain rfl : piece = name := by simpa using h
      rename_i h1 h2
      exact ⟨⟨fun e => h1 (Or.inl e), hs⟩, fun e => h1 (Or.inr e), h2⟩

/-- The names among the components of a path are those that it goes down along. -/
theorem isPlain_of_mem_components {p : Path} {name : Bytes} (h : .name name ∈ p.components) : IsPlain name := by
  have hs : ∀ piece ∈ Split.splitOn slash p.bytes, slash ∉ piece := fun _ => Split.notMem_of_mem_splitOn
  unfold components at h
  split at h
  · cases h
  · rename_i first rest e
    rw [e] at hs
    rcases List.mem_append.mp h with h | h
    · split at h
      · split at h <;> simp at h
      · split at h
        · simp at h
        · exact isPlain_of_component? (Option.mem_toList.mp h) (hs _ List.mem_cons_self)
    · obtain ⟨piece, hp, he⟩ := List.mem_filterMap.mp h
      exact isPlain_of_component? he (hs _ (List.mem_cons_of_mem _ hp))

theorem isPlain_of_fileName? {p : Path} {name : Bytes} (h : p.fileName? = some name) : IsPlain name := by
  unfold fileName? at h
  split at h
  · rename_i e
    obtain rfl := Option.some.inj h
    exact isPlain_of_mem_components (List.mem_of_getLast? e)
  · cases h

/-- The bytes of a file name are shared out among stem and extension. -/
theorem stemAndExtension_parts (name : Bytes) {stem : Bytes} {extension : Option Bytes}
    (h : stemAndExtension name = (stem, extension)) (hn : name ≠ []) :
    stem ≠ [] ∧ (∀ b ∈ stem, b ∈ name) ∧ ∀ bytes, extension = some bytes → dot ∉ bytes ∧ ∀ b ∈ bytes, b ∈ name := by
  unfold stemAndExtension at h
  split at h
  · cases h
    exact ⟨hn, fun _ hb => hb, by simp⟩
  · rename_i stem' extension' hne hcut
    cases h
    obtain ⟨hdot, rfl⟩ := Split.cutLast?_eq_some_iff.mp hcut
    refine ⟨hne, fun b hb => List.mem_append_left _ hb, ?_⟩
    rintro bytes ⟨rfl⟩
    exact ⟨hdot, fun b hb => List.mem_append_right _ (List.mem_cons_of_mem _ hb)⟩
  · cases h
    exact ⟨hn, fun _ hb => hb, by simp⟩

/-- The text of a stem is not empty and has no separator. -/
theorem stemText?_plain {p : Path} {stem : String} (h : p.stemText? = some stem) :
    stem ≠ "" ∧ '/' ∉ stem.toList := by
  obtain ⟨bytes, hb, hd⟩ := Option.bind_eq_some_iff.mp h
  obtain ⟨name, hn, rfl⟩ := Option.map_eq_some_iff.mp hb
  have hname := isPlain_of_fileName? hn
  obtain ⟨hne, hm, -⟩ := stemAndExtension_parts name rfl hname.ne_nil
  refine ⟨?_, fun hc => ?_⟩
  · rintro rfl
    exact hne (Utf8.decode?_eq_empty hd)
  · obtain ⟨b, hb, e⟩ := Utf8.char_mem_of_decode? hd hc (by decide) (by decide)
    obtain rfl : b = slash := UInt8.toNat_inj.mp e
    exact hname.no_slash (hm _ hb)

/-- The text of an extension has neither a dot nor a separator. -/
theorem extensionText?_plain {p : Path} {extension : String} (h : p.extensionText? = some extension) :
    '.' ∉ extension.toList ∧ '/' ∉ extension.toList := by
  obtain ⟨bytes, hb, hd⟩ := Option.bind_eq_some_iff.mp h
  obtain ⟨name, hn, he⟩ := Option.bind_eq_some_iff.mp hb
  have hname := isPlain_of_fileName? hn
  obtain ⟨hdot, hm⟩ := (stemAndExtension_parts name rfl hname.ne_nil).2.2 bytes he
  refine ⟨fun hc => ?_, fun hc => ?_⟩
  · obtain ⟨b, hb, e⟩ := Utf8.char_mem_of_decode? hd hc (by decide) (by decide)
    obtain rfl : b = dot := UInt8.toNat_inj.mp e
    exact hdot hb
  · obtain ⟨b, hb, e⟩ := Utf8.char_mem_of_decode? hd hc (by decide) (by decide)
    obtain rfl : b = slash := UInt8.toNat_inj.mp e
    exact hname.no_slash (hm _ hb)

/-- A file name with an extension is the stem, a dot and the extension. -/
theorem fileName?_of_extension? {p : Path} {extension : Bytes} (h : p.extension? = some extension) :
    ∃ stem, p.stem? = some stem ∧ p.fileName? = some (stem ++ dot :: extension) := by
  obtain ⟨name, hn, he⟩ := Option.bind_eq_some_iff.mp h
  obtain ⟨stem, hparts⟩ : ∃ stem, stemAndExtension name = (stem, some extension) := ⟨_, Prod.ext rfl he⟩
  have hname : name = stem ++ dot :: extension := by
    unfold stemAndExtension at hparts
    split at hparts
    · cases hparts
    · rename_i hcut
      cases hparts
      exact (Split.cutLast?_eq_some_iff.mp hcut).2
    · cases hparts
  refine ⟨stem, ?_, by rw [hn, hname]⟩
  rw [stem?, hn, Option.map_some, hparts]

/-- A file name with an extension that is text is text exactly if its stem is. -/
theorem isSome_fileNameText? {p : Path} {extension : String} (h : p.extensionText? = some extension) :
    p.fileNameText?.isSome = true ↔ p.stemText?.isSome = true := by
  obtain ⟨bytes, hb, hd⟩ := Option.bind_eq_some_iff.mp h
  obtain ⟨stem, hstem, hname⟩ := fileName?_of_extension? hb
  rw [fileNameText?, hname, Option.bind_some, stemText?, hstem, Option.bind_some,
    Utf8.isSome_decode?_append _ _ (by decide), hd]
  simp

/-- A stem and an extension that are text make up the file name. -/
theorem fileName?_of_texts {p : Path} {stem extension : String} (hs : p.stemText? = some stem)
    (he : p.extensionText? = some extension) : p.fileName? = some (Utf8.encode stem ++ dot :: Utf8.encode extension) := by
  obtain ⟨bytes, hbytes, hextension⟩ := Option.bind_eq_some_iff.mp he
  obtain ⟨front, hfront, hname⟩ := fileName?_of_extension? hbytes
  rw [stemText?, hfront, Option.bind_some] at hs
  rw [hname, Utf8.decode?_eq_some_iff.mp hs, Utf8.decode?_eq_some_iff.mp hextension]

end Path

/-! ## Names of outputs -/

/-- Whether a suffix makes a name of its own out of a stem. -/
structure IsSuffix (suffix : String) : Prop where
  ne_empty : suffix ≠ ""
  no_slash : '/' ∉ suffix.toList

theorem Settings.isSuffix_of_validate {s : Settings} {fs : FileSystem} (h : s.validate fs = .ok ()) :
    IsSuffix s.output.suffix := by
  unfold validate at h
  split at h
  · cases h
  · split at h
    · cases h
    · split at h
      · cases h
      · rename_i h1 h2
        refine ⟨h1, fun hc => h2 (List.any_eq_true.mpr ⟨_, hc, by decide⟩)⟩

theorem outputName_of_texts {source : Path} {suffix stem extension : String} (hs : source.stemText? = some stem)
    (he : source.extensionText? = some extension) :
    outputName source suffix = .ok (stem ++ suffix ++ "." ++ extension) := by
  simp [outputName, hs, he]

/-- The name of an output is a single name, and no `.` or `..`. -/
theorem outputName_plain {source : Path} {suffix extension name : String} (hs : IsSuffix suffix)
    (he : source.extensionText? = some extension) (h : outputName source suffix = .ok name) :
    IsPlain (Utf8.encode name) := by
  cases hstem : source.stemText? with
  | none => simp [outputName, hstem] at h
  | some stem =>
    rw [outputName_of_texts hstem he] at h
    obtain rfl := Except.ok.inj h
    obtain ⟨hne, hslash⟩ := Path.stemText?_plain hstem
    have hlong : 3 ≤ (stem ++ suffix ++ "." ++ extension).length := by
      have hpos : ∀ text : String, text ≠ "" → 0 < text.length := fun text ht =>
        Nat.pos_of_ne_zero fun e => ht (String.length_eq_zero_iff.mp e)
      have h1 := hpos stem hne
      have h2 := hpos suffix hs.ne_empty
      simp only [String.length_append]
      have : ".".length = 1 := rfl
      omega
    have hdots : ∀ text : String, text.length ≤ 2 →
        Utf8.encode (stem ++ suffix ++ "." ++ extension) ≠ Utf8.encode text := fun text ht e => by
      rw [Utf8.encode_injective e] at hlong
      omega
    refine ⟨⟨hdots "" (by decide), ?_⟩, hdots "." (by decide), hdots ".." (by decide)⟩
    rw [Utf8.byte_mem_encode (by decide)]
    have hsep : Char.ofNat Path.slash.toNat = '/' := by decide
    simp [hsep, hslash, hs.no_slash, (Path.extensionText?_plain he).2]

/-- A source that counts as an archive has an extension that is text. -/
theorem Settings.extensionText?_of_isArchivePath {s : Settings} {p : Path} (h : s.isArchivePath p = true) :
    ∃ extension, p.extensionText? = some extension := by
  unfold isArchivePath at h
  split at h
  · exact ⟨_, ‹_›⟩
  · cases h

end SourceJar
