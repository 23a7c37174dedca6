import SourceJar.Discovery
import SourceJar.Proofs.Listing
import SourceJar.Proofs.Outputs

/-!
Which archives a scan finds.

A scan finds a file by the names below a directory, so where the path of the file leads, and what it comes to on the
way, is known from the path of the directory (`touchedBy_descend`). What the name of an output leads to is never found:
its stem ends in the suffix (`isGenerated_of_output`). A scan depends on where its input leads and on which of the
files below are archives to work on, and on nothing else (`expand_congr`, `discover_congr`).
-/

namespace SourceJar

open FileSystem

/-! ## The name at the end of a path -/

namespace Path

theorem component?_plain {name : Bytes} (h : IsPlain name) : component? name = some (.name name) := by
  rw [component?, if_neg (not_or.mpr ⟨h.ne_nil, h.ne_here⟩), if_neg h.ne_parent]

theorem components_plain {name : Bytes} (h : IsPlain name) : components ⟨name⟩ = [.name name] := by
  rw [components, Split.splitOn_of_notMem h.no_slash]
  simp [h.ne_nil, h.ne_here, component?_plain h]

/-- The file name of a path that ends in a name. -/
theorem fileName?_join (base : Path) {name : Bytes} (h : IsPlain name) : (base.join ⟨name⟩).fileName? = some name := by
  have hlast : (base.join ⟨name⟩).components.getLast? = some (.name name) := by
    have hback : ∀ front : Bytes,
        (Path.mk (front ++ slash :: name)).components.getLast? = some (.name name) := by
      intro front
      obtain ⟨piece, pieces, hs⟩ := List.exists_cons_of_ne_nil (Split.splitOn_ne_nil slash front)
      rw [components, Split.splitOn_append_cons, Split.splitOn_of_notMem h.no_slash, hs]
      simp [List.filterMap_append, component?_plain h]
    rcases join_bytes base (isAbsolute_segment h.toIsSegment) with ⟨e, hb | hb⟩ | ⟨e, -⟩
    · have e' : base.join ⟨name⟩ = ⟨name⟩ := by
        rw [hb, List.nil_append] at e
        exact congrArg Path.mk e
      rw [e', components_plain h]
      rfl
    · obtain ⟨front, hf⟩ := List.getLast?_eq_some_iff.mp hb
      have e' : base.join ⟨name⟩ = ⟨front ++ slash :: name⟩ := by
        rw [hf, List.append_assoc] at e
        exact congrArg Path.mk e
      rw [e', hback]
    · have e' : base.join ⟨name⟩ = ⟨base.bytes ++ slash :: name⟩ := congrArg Path.mk e
      rw [e', hback]
  rw [fileName?, hlast]

end Path

theorem Utf8.encode_append (text text' : String) : encode (text ++ text') = encode text ++ encode text' := by
  rw [encode, String.toList_append, List.flatMap_append]
  rfl

/-- A name is cut at the dot in front of its extension, which has none. -/
theorem Path.stemAndExtension_encode {stem extension : String} (hs : stem ≠ "") (he : '.' ∉ extension.toList) :
    stemAndExtension (Utf8.encode stem ++ dot :: Utf8.encode extension) =
      (Utf8.encode stem, some (Utf8.encode extension)) := by
  have hdot : dot ∉ Utf8.encode extension := by
    rw [Utf8.byte_mem_encode (by decide)]
    exact he
  have hcut : Split.cutLast? dot (Utf8.encode stem ++ dot :: Utf8.encode extension) =
      some (Utf8.encode stem, Utf8.encode extension) := Split.cutLast?_eq_some_iff.mpr ⟨hdot, rfl⟩
  have hne : Utf8.encode stem ≠ [] := fun e => hs (Utf8.encode_injective e)
  obtain ⟨b, bs, hb⟩ := List.exists_cons_of_ne_nil hne
  rw [stemAndExtension, hcut, hb]

/-- Stem and extension are read off a file name that is made up of them. -/
theorem Path.texts_of_fileName? {p : Path} {stem extension : String} (hs : stem ≠ "") (he : '.' ∉ extension.toList)
    (h : p.fileName? = some (Utf8.encode stem ++ dot :: Utf8.encode extension)) :
    p.stemText? = some stem ∧ p.extensionText? = some extension := by
  have hparts := stemAndExtension_encode hs he
  constructor
  · rw [stemText?, stem?, h, Option.map_some, hparts, Option.bind_some, Utf8.decode?_encode]
  · rw [extensionText?, extension?, h, Option.bind_some, hparts, Option.bind_some, Utf8.decode?_encode]

theorem append_suffix_ne_empty {stem : String} (h : stem ≠ "") (suffix : String) : stem ++ suffix ≠ "" :=
  fun e => h (String.append_eq_empty_iff.mp e).1

/-- The bytes of an output's name. -/
theorem Utf8.encode_output (stem suffix extension : String) :
    encode (stem ++ suffix ++ "." ++ extension) = encode (stem ++ suffix) ++ Path.dot :: encode extension := by
  rw [encode_append, encode_append, List.append_assoc]
  rfl

/-- A claimed output name is put together from a stem, the suffix and an extension. -/
theorem Batch.claim?_parts {settings : Settings} {source : Path} {name : String}
    (h : claim? settings source = some name) : ∃ stem extension, stem ≠ "" ∧ '.' ∉ extension.toList ∧
      name = stem ++ settings.output.suffix ++ "." ++ extension := by
  unfold claim? at h
  split at h
  · rename_i ha
    obtain ⟨extension, he⟩ := Settings.extensionText?_of_isArchivePath ha
    cases hs : source.stemText? with
    | none => simp [outputName, hs, Except.toOption] at h
    | some stem =>
      rw [outputName_of_texts hs he] at h
      exact ⟨stem, extension, (Path.stemText?_plain hs).1, (Path.extensionText?_plain he).1, (Option.some.inj h).symm⟩
  · cases h

/-- A path with the name of an output is that of an output. -/
theorem Discovery.isGenerated_of_claim? {settings : Settings} {source p : Path} {name : String}
    (h : Batch.claim? settings source = some name) (hp : p.fileName? = some (Utf8.encode name)) :
    isGenerated settings p = true := by
  obtain ⟨stem, extension, hs, he, rfl⟩ := Batch.claim?_parts h
  rw [Utf8.encode_output] at hp
  rw [isGenerated, (Path.texts_of_fileName? (append_suffix_ne_empty hs _) he hp).1]
  exact Split.endsWith_iff.mpr ⟨stem.toList, (String.toList_append).symm⟩

/-! ## Walks below a directory -/

namespace FileSystem

/-- A walk along a longer path touches what the shorter one touches, and then what it touches from the directory that
this leads to. -/
theorem Leads.touched_append {fs : FileSystem} {links : Nat} {here : Place} {names : List Bytes} {slash : Bool}
    {directory : Place} (h : Leads fs true links here names slash (.taken directory .directory)) :
    ∃ left, ∀ more place, place ∈ fs.touched links here (names ++ more) →
      place ∈ fs.touched links here names ∨ place ∈ fs.touched left directory more := by
  generalize hs : Spot.taken directory .directory = spot at h
  induction h with
  | here links here slash => cases hs; exact ⟨links, fun more place hp => .inr hp⟩
  | stay _ ih =>
    obtain ⟨left, ih⟩ := ih hs
    refine ⟨left, fun more place hp => ?_⟩
    rw [List.cons_append, touched_stay] at hp
    rw [touched_stay]
    exact ih more place hp
  | up _ ih =>
    obtain ⟨left, ih⟩ := ih hs
    refine ⟨left, fun more place hp => ?_⟩
    rw [List.cons_append, touched_up] at hp
    rw [touched_up]
    exact ih more place hp
  | down hn hg _ ih =>
    obtain ⟨left, ih⟩ := ih hs
    refine ⟨left, fun more place hp => ?_⟩
    rw [List.cons_append, touched_name hn.ne_here hn.ne_parent, hg] at hp
    rw [touched_name hn.ne_here hn.ne_parent, hg]
    exact ih more place hp
  | @along links here name rest slash spot target hn hg hr _ ih =>
    obtain ⟨left, ih⟩ := ih hs
    refine ⟨left, fun more place hp => ?_⟩
    rw [List.cons_append, touched_name hn.ne_here hn.ne_parent, hg] at hp
    rw [touched_name hn.ne_here hn.ne_parent, hg]
    rcases List.mem_cons.mp hp with rfl | hp
    · exact .inl List.mem_cons_self
    · rw [← List.append_assoc] at hp
      exact (ih more place hp).imp_left (List.mem_cons_of_mem _)
  | link _ _ hf => exact absurd rfl hf
  | node _ _ hd => cases hs; exact absurd rfl hd
  | free => cases hs

/-- A walk down directories to something else touches only that. -/
theorem WellFormed.touched_below {fs : FileSystem} (hfs : fs.WellFormed) {links : Nat} {top names : Place}
    {node : Inode} (hn : ∀ name ∈ names, IsName name) (hg : fs.get? (top ++ names) = some node) (hnd : node ≠ .directory)
    (hnl : ∀ target, node ≠ .link target) {place : Place} (hp : place ∈ fs.touched links top names) :
    place = top ++ names := by
  rcases List.eq_nil_or_concat names with rfl | ⟨front, name, rfl⟩
  · rw [touched] at hp
    cases hp
  · simp only [List.concat_eq_append] at hn hg hp ⊢
    have hfront : ∀ more, more <+: front → fs.get? (top ++ more) = some .directory := by
      intro more hm
      obtain ⟨rest, rfl⟩ := hm
      have hne : rest ++ [name] ≠ [] := by simp
      refine hfs.directory_of_below hne ?_
      rw [List.append_assoc, ← List.append_assoc more, hg]
      exact Option.some_ne_none _
    rw [touched_descend (fun name hm => hn name (List.mem_append_left _ hm)) hfront] at hp
    have hlast := hn name (by simp)
    rw [touched_name hlast.ne_here hlast.ne_parent, List.append_assoc, hg] at hp
    cases node with
    | directory => exact absurd rfl hnd
    | link target => exact absurd rfl (hnl target)
    | _ => simpa using hp

end FileSystem

namespace Discovery

/-! ## The paths of files below a directory -/

theorem descend_concat (directory : Path) (names : Place) (name : Bytes) :
    descend directory (names ++ [name]) = (descend directory names).join ⟨name⟩ := by
  rw [descend, List.foldl_append]
  rfl

theorem parts_descend (fs : FileSystem) (directory : Path) {names : Place} (h : ∀ name ∈ names, IsSegment name) :
    fs.startOf (descend directory names) = fs.startOf directory ∧
      namesOf (descend directory names) = namesOf directory ++ names := by
  induction names using List.reverseRecOn with
  | nil => exact ⟨rfl, (List.append_nil _).symm⟩
  | append_singleton front name ih =>
    obtain ⟨hstart, hnames⟩ := ih fun other ho => h other (List.mem_append_left _ ho)
    have hseg : IsSegment name := h name (by simp)
    have hrel := isAbsolute_segment hseg
    refine ⟨?_, ?_⟩
    · rw [descend_concat, startOf, isAbsolute_join hrel, ← startOf, hstart]
    · rw [descend_concat, namesOf_join hrel, namesOf_segment hseg, hnames, List.append_assoc]

/-- The path of a file below a directory touches what the path of the directory does, and the file. -/
theorem touchedBy_descend {fs : FileSystem} (hfs : fs.WellFormed) {directory : Path} {top names : Place}
    (hl : fs.locate true directory = .ok (.taken top .directory)) (hn : ∀ name ∈ names, IsName name ∧ IsSegment name)
    {content : Bytes} (hg : fs.get? (top ++ names) = some (.file content)) {place : Place}
    (hp : place ∈ fs.touchedBy (descend directory names)) : place ∈ fs.touchedBy directory ∨ place = top ++ names := by
  obtain ⟨left, hsplit⟩ := (locate_eq_ok_iff.mp hl).2.touched_append
  obtain ⟨hstart, hnames⟩ := parts_descend fs directory fun name hm => (hn name hm).2
  rw [touchedBy, hstart, hnames] at hp
  refine (hsplit names place hp).imp_right fun hp => ?_
  exact hfs.touched_below (fun name hm => (hn name hm).1) hg Inode.noConfusion (fun _ => Inode.noConfusion) hp

/-! ## What a scan depends on -/

section Expand

variable {settings : Settings} {fs fs' : FileSystem}

theorem filesBelow_eq {directory : Path} {top : Place} (h : fs.locate true directory = .ok (.taken top .directory)) :
    filesBelow fs directory = (fs.filesUnder top).map (descend directory) := by
  rw [filesBelow, directoryPlace_eq_ok_iff.mpr h, filesUnder, List.map_filterMap]
  refine List.filterMap_congr fun pair _ => ?_
  obtain ⟨names, node⟩ := pair
  cases node <;> rfl

/-- What an input stands for that leads to something. -/
theorem expand_of_locate {input : Path} {place : Place} {node : Inode}
    (h : fs.locate true input = .ok (.taken place node)) : expand settings fs input =
      .ok (if node = .directory then ((fs.filesUnder place).map (descend input)).filter (isCandidate settings)
        else [input]) := by
  have hstat : fs.stat input = .ok node := by rw [stat, h]
  unfold expand pathExists isDirectory
  rw [hstat]
  cases node with
  | directory =>
    rw [← filesBelow_eq h]
    rfl
  | _ => rfl

/-- An input that stands for something leads to something. -/
theorem expand_eq_ok {input : Path} {found : List Path} (h : expand settings fs input = .ok found) :
    ∃ place node, fs.locate true input = .ok (.taken place node) := by
  unfold expand pathExists stat at h
  cases hl : fs.locate true input with
  | error e => simp [hl, Except.isOk, Except.toBool] at h
  | ok spot =>
    rcases spot with ⟨place, node⟩ | ⟨place, slash⟩
    · exact ⟨place, node, rfl⟩
    · simp [hl, Except.isOk, Except.toBool] at h

/-- An input that leads to the same, with the same archives below it, stands for the same. -/
theorem expand_congr (hd : fs.Distinct) (hd' : fs'.Distinct) {input : Path} {place : Place} {node : Inode}
    (hl : fs.locate true input = .ok (.taken place node)) (hl' : fs'.locate true input = .ok (.taken place node))
    (hf : ∀ names, names ≠ [] → isCandidate settings (descend input names) = true →
      ((∃ content, fs'.get? (place ++ names) = some (.file content)) ↔
        ∃ content, fs.get? (place ++ names) = some (.file content))) :
    expand settings fs' input = expand settings fs input := by
  have hfiles := filesUnder_filter_congr hd hd' place (fun names => isCandidate settings (descend input names)) hf
  rw [expand_of_locate hl, expand_of_locate hl', List.filter_map, List.filter_map]
  exact congrArg (fun row => Except.ok (if node = .directory then row.map (descend input) else [input])) hfiles

end Expand

/-! ## Whole inputs -/

section Discover

variable {settings : Settings} {fs fs' : FileSystem} {inputs sources : List Path}

theorem mem_dropRepeats {p : Path} {row : List Path} (h : p ∈ dropRepeats row) : p ∈ row := by
  induction row with
  | nil => exact h
  | cons first rest ih =>
    rw [dropRepeats] at h
    rcases List.mem_cons.mp h with rfl | h
    · exact List.mem_cons_self
    · exact List.mem_cons_of_mem _ (ih (List.mem_filter.mp h).1)

theorem mapM_eq_ok {α β ε : Type} {f : α → Except ε β} {items : List α} {results : List β}
    (h : items.mapM f = .ok results) : (∀ item ∈ items, ∃ result ∈ results, f item = .ok result) ∧
      ∀ result ∈ results, ∃ item ∈ items, f item = .ok result := by
  induction items generalizing results with
  | nil =>
    cases h
    simp
  | cons item rest ih =>
    rw [List.mapM_cons] at h
    cases hi : f item with
    | error e => rw [hi] at h; cases h
    | ok result =>
      cases hr : rest.mapM f with
      | error e => rw [hi, hr] at h; cases h
      | ok others =>
        rw [hi, hr] at h
        cases h
        obtain ⟨hto, hfrom⟩ := ih hr
        constructor
        · intro other ho
          rcases List.mem_cons.mp ho with rfl | ho
          · exact ⟨result, List.mem_cons_self, hi⟩
          · obtain ⟨result', hm, e⟩ := hto other ho
            exact ⟨result', List.mem_cons_of_mem _ hm, e⟩
        · intro other ho
          rcases List.mem_cons.mp ho with rfl | ho
          · exact ⟨item, List.mem_cons_self, hi⟩
          · obtain ⟨item', hm, e⟩ := hfrom other ho
            exact ⟨item', List.mem_cons_of_mem _ hm, e⟩

/-- What is discovered was found for an input, and every input stands for something. -/
theorem discover_eq_ok (h : discover settings fs inputs = .ok sources) :
    (∀ input ∈ inputs, ∃ found, expand settings fs input = .ok found) ∧
      ∀ source ∈ sources, ∃ input ∈ inputs, ∃ found, expand settings fs input = .ok found ∧ source ∈ found := by
  unfold discover at h
  cases hf : inputs.mapM (expand settings fs) with
  | error e => rw [hf] at h; cases h
  | ok found =>
    rw [hf] at h
    simp only [bind, Except.bind] at h
    split at h
    · cases h
    · cases h
      obtain ⟨hto, hfrom⟩ := mapM_eq_ok hf
      refine ⟨fun input hi => ?_, fun source hs => ?_⟩
      · obtain ⟨result, -, e⟩ := hto input hi
        exact ⟨result, e⟩
      · obtain ⟨result, hr, hm⟩ := List.mem_flatten.mp (mem_dropRepeats hs)
        obtain ⟨input, hi, e⟩ := hfrom result hr
        exact ⟨input, hi, result, e, hm⟩

/-- The same is discovered where every input stands for the same. -/
theorem discover_congr (h : ∀ input ∈ inputs, expand settings fs' input = expand settings fs input) :
    discover settings fs' inputs = discover settings fs inputs := by
  have hm : inputs.mapM (expand settings fs') = inputs.mapM (expand settings fs) := by
    induction inputs with
    | nil => rfl
    | cons input rest ih =>
      rw [List.mapM_cons, List.mapM_cons, h input List.mem_cons_self,
        ih fun other ho => h other (List.mem_cons_of_mem _ ho)]
  rw [discover, hm, discover]

end Discover

end Discovery

end SourceJar
