import SourceJar.Proofs.Scanning

/-!
What is discovered for any inputs.

A walk keeps the names that it has still to come to; it puts the names in a directory in front of them, in byte order,
and does not follow links (`Walked`). In a proper file system every walk comes to an end (`exists_walked`), and what it
comes upon is what a scan lists (`Walked.eq_filesUnder`). What is discovered follows from the walks of the inputs
(`discover_of_inputs`): the first input that is not there is reported; otherwise the archives come in the order of the
inputs and of their walks, each path once.
-/

namespace SourceJar

open FileSystem

namespace FileSystem

/-! ## Depth-first walks -/

/-- What a walk below a place comes upon that has still some names to come to, from the place down: the names of the
regular files, in the order in which it comes to them. -/
inductive Walked (fs : FileSystem) (top : Place) : (ahead found : List Place) → Prop
  | done : Walked fs top [] []
  | file {names : Place} {content : Bytes} {ahead found : List Place}
      (h : fs.get? (top ++ names) = some (.file content)) (rest : Walked fs top ahead found) :
      Walked fs top (names :: ahead) (names :: found)
  | other {names : Place} {node : Inode} {ahead found : List Place} (h : fs.get? (top ++ names) = some node)
      (hd : node ≠ .directory) (hf : ∀ content, node ≠ .file content) (rest : Walked fs top ahead found) :
      Walked fs top (names :: ahead) found
  | directory {names : Place} {inside : List Bytes} {ahead found : List Place}
      (h : fs.get? (top ++ names) = some .directory) (ordered : inside.Pairwise (· < ·))
      (complete : ∀ name, name ∈ inside ↔ fs.get? (top ++ names ++ [name]) ≠ none)
      (rest : Walked fs top (inside.map (names ++ [·]) ++ ahead) found) :
      Walked fs top (names :: ahead) found

section Walked

variable {fs : FileSystem} {top : Place} {ahead found : List Place}

theorem WellFormed.below_leaf (hfs : fs.WellFormed) {place below : Place} {node : Inode} (h : fs.get? place = some node)
    (hn : node ≠ .directory) (hb : fs.get? (place ++ below) ≠ none) : below = [] := by
  by_contra hne
  rw [hfs.directory_of_below hne hb] at h
  exact hn (Option.some.inj h).symm

/-- A walk comes upon the regular files at the names ahead and below them, and upon nothing else. -/
theorem Walked.mem_iff (hfs : fs.WellFormed) (h : Walked fs top ahead found) (names : Place) :
    names ∈ found ↔ (∃ start ∈ ahead, start <+: names) ∧ ∃ content, fs.get? (top ++ names) = some (.file content) := by
  -- what stands at a leaf is what is there at or below it
  have hleaf : ∀ {start node}, fs.get? (top ++ start) = some node → node ≠ .directory → start <+: names →
      fs.get? (top ++ names) ≠ none → names = start := by
    rintro start node hg hn ⟨below, rfl⟩ hb
    rw [← List.append_assoc] at hb
    rw [hfs.below_leaf hg hn hb, List.append_nil]
  induction h with
  | done => simp
  | @file start content ahead found hg _ ih =>
    rw [List.mem_cons]
    simp only [ih, List.exists_mem_cons_iff]
    constructor
    · rintro (rfl | ⟨hstart, hfile⟩)
      · exact ⟨.inl List.prefix_rfl, content, hg⟩
      · exact ⟨.inr hstart, hfile⟩
    · rintro ⟨hp | hstart, hfile⟩
      · exact .inl (hleaf hg (by simp) hp (by rw [hfile.choose_spec]; simp))
      · exact .inr ⟨hstart, hfile⟩
  | @other start node ahead found hg hd hf _ ih =>
    simp only [ih, List.exists_mem_cons_iff]
    constructor
    · rintro ⟨hstart, hfile⟩
      exact ⟨.inr hstart, hfile⟩
    · rintro ⟨hp | hstart, content, hfile⟩
      · rw [hleaf hg hd hp (by rw [hfile]; simp), hg] at hfile
        exact absurd (Option.some.inj hfile) (hf content)
      · exact ⟨hstart, content, hfile⟩
  | @directory start inside ahead found hg ordered complete _ ih =>
    simp only [ih, List.exists_mem_cons_iff, List.mem_append, List.mem_map]
    constructor
    · rintro ⟨⟨next, ⟨name, -, rfl⟩ | hm, hp⟩, hfile⟩
      · exact ⟨.inl ((List.prefix_append _ _).trans hp), hfile⟩
      · exact ⟨.inr ⟨next, hm, hp⟩, hfile⟩
    · rintro ⟨⟨below, rfl⟩ | ⟨next, hm, hp⟩, content, hfile⟩
      · cases below with
        | nil =>
          rw [List.append_nil, hg] at hfile
          cases hfile
        | cons name below =>
          refine ⟨⟨start ++ [name], .inl ⟨name, (complete name).mpr fun hnone => ?_, rfl⟩, ⟨below, by simp⟩⟩, content, hfile⟩
          -- nothing stands below a name that is not there
          rw [hfs.none_below hnone ⟨below, by simp⟩] at hfile
          cases hfile
      · exact ⟨⟨next, .inr hm, hp⟩, content, hfile⟩

/-- One row of names comes before another, and is no part of it. -/
def Ahead (a b : Place) : Prop := a < b ∧ ¬a <+: b

theorem Ahead.append {a b : Place} (h : Ahead a b) (below below' : Place) : a ++ below < b ++ below' := by
  obtain ⟨hlt, hp⟩ := h
  induction a generalizing b with
  | nil => exact absurd (List.nil_prefix) hp
  | cons x a ih =>
    cases b with
    | nil => exact absurd hlt (List.not_lt_nil _)
    | cons y b =>
      rcases List.cons_lt_cons_iff.mp hlt with hxy | ⟨rfl, hab⟩
      · exact List.cons_lt_cons_iff.mpr (.inl hxy)
      · exact List.cons_lt_cons_iff.mpr (.inr ⟨rfl, ih hab fun h => hp (List.prefix_cons_inj x |>.mpr h)⟩)

theorem Ahead.below {a b : Place} (h : Ahead a b) (below : Place) : Ahead (a ++ below) b :=
  ⟨by simpa using h.append below [], fun hp => h.2 ((List.prefix_append a below).trans hp)⟩

theorem ahead_of_lt (names : Place) {name name' : Bytes} (h : name < name') :
    Ahead (names ++ [name]) (names ++ [name']) := by
  refine ⟨List.append_left_lt (List.cons_lt_cons_iff.mpr (.inl h)), fun hp => ?_⟩
  rw [List.prefix_append_right_inj, List.cons_prefix_cons] at hp
  exact Std.lt_irrefl (hp.1 ▸ h)

/-- A walk whose names ahead are in order comes upon the files in order. -/
theorem Walked.pairwise (hfs : fs.WellFormed) (h : Walked fs top ahead found) (ha : ahead.Pairwise Ahead) :
    found.Pairwise (· < ·) := by
  induction h with
  | done => exact .nil
  | @file start content ahead found hg rest ih =>
    obtain ⟨hlater, hahead⟩ := List.pairwise_cons.mp ha
    refine List.pairwise_cons.mpr ⟨fun names hm => ?_, ih hahead⟩
    obtain ⟨⟨next, hn, below, rfl⟩, -⟩ := (rest.mem_iff hfs names).mp hm
    simpa using (hlater next hn).append [] below
  | other _ _ _ _ ih => exact ih (List.pairwise_cons.mp ha).2
  | @directory start inside ahead found hg ordered complete _ ih =>
    obtain ⟨hlater, hahead⟩ := List.pairwise_cons.mp ha
    refine ih (List.pairwise_append.mpr ⟨List.pairwise_map.mpr (ordered.imp (ahead_of_lt start)), hahead, ?_⟩)
    intro a hm b hb
    obtain ⟨name, -, rfl⟩ := List.mem_map.mp hm
    exact (hlater b hb).below [name]

/-- A walk below a directory comes upon what a scan lists. -/
theorem Walked.eq_filesUnder (hfs : fs.Proper) (hd : fs.get? top = some .directory) (h : Walked fs top [[]] found) :
    found = fs.filesUnder top := by
  refine eq_of_ordered (h.pairwise hfs.toWellFormed (List.pairwise_singleton _ _)) (pairwise_filesUnder hfs.distinct top)
    fun names => ?_
  rw [h.mem_iff hfs.toWellFormed, mem_filesUnder hfs.distinct]
  constructor
  · rintro ⟨-, content, hfile⟩
    refine ⟨?_, content, hfile⟩
    rintro rfl
    rw [List.append_nil, hd] at hfile
    cases hfile
  · rintro ⟨-, hfile⟩
    exact ⟨⟨[], List.mem_singleton_self _, List.nil_prefix⟩, hfile⟩

/-! ## Every walk comes to an end -/

theorem Walked.append {ahead' found' : List Place} (h : Walked fs top ahead found) (h' : Walked fs top ahead' found') :
    Walked fs top (ahead ++ ahead') (found ++ found') := by
  induction h with
  | done => exact h'
  | file hg _ ih => exact .file hg ih
  | other hg hd hf _ ih => exact .other hg hd hf ih
  | directory hg ordered complete _ ih => exact .directory hg ordered complete (by rwa [List.append_assoc] at ih)

/-- The name of something that is listed right inside a directory. -/
def single? : Place × Inode → Option Bytes
  | ([name], _) => some name
  | _ => none

theorem single?_eq_some_iff {pair : Place × Inode} {name : Bytes} : single? pair = some name ↔ pair.1 = [name] := by
  obtain ⟨_ | ⟨first, _ | ⟨second, rest⟩⟩, node⟩ := pair <;> simp [single?]

/-- What is in a directory can be put in order. -/
theorem exists_inside (h : fs.Distinct) (directory : Place) :
    ∃ inside : List Bytes, inside.Pairwise (· < ·) ∧
      ∀ name, name ∈ inside ↔ fs.get? (directory ++ [name]) ≠ none := by
  refine ⟨(fs.below directory).filterMap single?, ?_, fun name => ?_⟩
  · refine List.Pairwise.filterMap _ (fun a b hab name hn name' hn' => ?_) (pairwise_below h directory)
    rw [single?_eq_some_iff.mp hn, single?_eq_some_iff.mp hn'] at hab
    exact (List.cons_lt_cons_iff.mp hab).resolve_right fun e => List.not_lt_nil _ e.2
  · rw [List.mem_filterMap, Option.ne_none_iff_exists']
    simp only [single?_eq_some_iff]
    constructor
    · rintro ⟨⟨names, node⟩, hm, rfl⟩
      exact ⟨node, ((mem_below h directory).mp hm).2⟩
    · rintro ⟨node, hg⟩
      exact ⟨([name], node), (mem_below h directory).mpr ⟨by simp, hg⟩, rfl⟩

/-- A walk comes to an end from each place that is at most so deep. -/
theorem exists_walked_of_depth (h : fs.Distinct) (depth : Nat) (names : Place)
    (hdeep : ∀ place, fs.get? place ≠ none → place.length < (top ++ names).length + depth)
    (hn : fs.get? (top ++ names) ≠ none) : ∃ found, Walked fs top [names] found := by
  induction depth generalizing names with
  | zero => exact absurd (hdeep _ hn) (Nat.lt_irrefl _)
  | succ depth ih =>
    obtain ⟨node, hg⟩ := Option.ne_none_iff_exists'.mp hn
    cases node with
    | file content => exact ⟨_, .file hg .done⟩
    | link target => exact ⟨_, .other hg (by simp) (by simp) .done⟩
    | device => exact ⟨_, .other hg (by simp) (by simp) .done⟩
    | directory =>
      obtain ⟨inside, ordered, complete⟩ := exists_inside h (top ++ names)
      have hrow : ∀ row : List Bytes, (∀ name ∈ row, name ∈ inside) →
          ∃ found, Walked fs top (row.map (names ++ [·])) found := by
        intro row hrow
        induction row with
        | nil => exact ⟨_, .done⟩
        | cons name rest ihrow =>
          have hname := (complete name).mp (hrow name List.mem_cons_self)
          obtain ⟨found, hfirst⟩ := ih (names ++ [name]) (fun place hp => by
            have := hdeep place hp
            simp only [List.length_append, List.length_singleton] at this ⊢
            omega) (by rwa [List.append_assoc] at hname)
          obtain ⟨others, hrest⟩ := ihrow fun other ho => hrow other (List.mem_cons_of_mem _ ho)
          exact ⟨_, hfirst.append hrest⟩
      obtain ⟨found, hall⟩ := hrow inside fun _ hm => hm
      exact ⟨found, .directory hg ordered complete (by rwa [List.append_nil])⟩

/-- Every walk in a file system comes to an end. -/
theorem exists_walked (hfs : fs.Proper) (hd : fs.get? top = some .directory) :
    ∃ found, Walked fs top [[]] found := by
  have hbound : ∀ place, fs.get? place ≠ none →
      place.length < (top ++ []).length + (((fs.nodes.map fun pair => pair.1.length).sum) + 1) := by
    intro place hp
    by_cases hroot : place = []
    · rw [hroot, List.length_nil]
      omega
    · obtain ⟨node, hg⟩ := Option.ne_none_iff_exists'.mp hp
      have hm : place.length ∈ fs.nodes.map fun pair => pair.1.length :=
        List.mem_map.mpr ⟨(place, node), (hfs.distinct.mem_nodes_iff hroot).mpr hg, rfl⟩
      have hle := List.single_le_sum (fun _ _ => Nat.zero_le _) _ hm
      omega
  exact exists_walked_of_depth hfs.distinct _ [] hbound (by rw [List.append_nil, hd]; simp)

end Walked

end FileSystem

namespace Discovery

/-! ## What an input stands for -/

/-- Whether a file that is found below a directory is an archive to work on: its extension is one of the settings but
for the case of letters, and its stem does not end in the suffix. A stem that is no text ends in no suffix. -/
def IsArchive (s : Settings) (p : Path) : Prop :=
  (∃ extension allowed, p.extensionText? = some extension ∧ allowed ∈ s.output.extensions ∧
    allowed.toList.map Char.toLower = extension.toList.map Char.toLower) ∧
  ¬∃ front, p.stemText? = some (front ++ s.output.suffix)

theorem isCandidate_iff (s : Settings) (p : Path) : isCandidate s p = true ↔ IsArchive s p := by
  rw [isCandidate, Bool.and_eq_true, Bool.not_eq_true', Bool.eq_false_iff]
  refine and_congr ?_ (not_congr ?_)
  · rw [Settings.isArchivePath]
    cases p.extensionText? with
    | none => simp
    | some extension => simp [Text.equalIgnoringAsciiCase]
  · rw [isGenerated]
    cases p.stemText? with
    | none => simp
    | some stem =>
      simp only [Split.endsWith_iff, Option.some.injEq, String.ext_iff, String.toList_append]
      constructor
      · rintro ⟨front, e⟩
        exact ⟨String.ofList front, by rw [String.toList_ofList]; exact e.symm⟩
      · rintro ⟨front, e⟩
        exact ⟨front.toList, e.symm⟩

instance (s : Settings) (p : Path) : Decidable (IsArchive s p) := decidable_of_iff _ (isCandidate_iff s p)

/-- What an input stands for: itself, or the archives that a walk of the directory comes upon that it leads to. -/
inductive StandsFor (s : Settings) (fs : FileSystem) (input : Path) : List Path → Prop
  | itself {place : Place} {node : Inode} (h : fs.locate true input = .ok (.taken place node))
      (hn : node ≠ .directory) : StandsFor s fs input [input]
  | below {top : Place} {found : List Place} (h : fs.locate true input = .ok (.taken top .directory))
      (hw : fs.Walked top [[]] found) : StandsFor s fs input ((found.map (descend input)).filter (IsArchive s ·))

section StandsFor

variable {s : Settings} {fs : FileSystem} {input : Path}

/-- What an input stands for is what is made of it. -/
theorem StandsFor.expand_eq (hfs : fs.Proper) {archives : List Path} (h : StandsFor s fs input archives) :
    expand s fs input = .ok archives := by
  cases h with
  | itself h hn => rw [expand_of_locate h, if_neg hn]
  | below h hw =>
    rw [expand_of_locate h, if_pos rfl, hw.eq_filesUnder hfs (stands_of_locate hfs.toWellFormed h)]
    refine congrArg Except.ok (List.filter_congr fun p _ => ?_)
    rw [Bool.eq_iff_iff, isCandidate_iff, decide_eq_true_iff]

theorem exists_standsFor (hfs : fs.Proper) (h : fs.pathExists input = true) :
    ∃ archives, StandsFor s fs input archives := by
  unfold pathExists stat at h
  split at h
  · rename_i place node hl
    by_cases hn : node = .directory
    · subst hn
      obtain ⟨found, hw⟩ := exists_walked hfs (stands_of_locate hfs.toWellFormed hl)
      exact ⟨_, .below hl hw⟩
    · exact ⟨_, .itself hl hn⟩
  · cases h
  · cases h

end StandsFor

/-! ## Each path once -/

/-- The paths of a row whose components no earlier path has. -/
def firstOccurrences (row : List Path) : List Path :=
  (row.zipIdx.filter fun (p, i) => (row.take i).all fun q => !q.equivalent p).map Prod.fst

theorem dropRepeats_eq (row : List Path) : dropRepeats row = firstOccurrences row := by
  induction row with
  | nil => rfl
  | cons p rest ih =>
    have hfirst : firstOccurrences (p :: rest) = p :: (rest.zipIdx.filter fun (q, i) =>
        !p.equivalent q && (rest.take i).all fun r => !r.equivalent q).map Prod.fst := by
      rw [firstOccurrences, List.zipIdx_cons, List.zipIdx_succ, List.filter_cons_of_pos (by rfl), List.filter_map,
        List.map_cons, List.map_map]
      rfl
    rw [dropRepeats, ih, hfirst, firstOccurrences, List.filter_map, List.filter_filter]
    rfl

theorem firstOccurrences_eq_nil_iff {row : List Path} : firstOccurrences row = [] ↔ row = [] := by
  rw [← dropRepeats_eq]
  cases row <;> simp [dropRepeats]

/-! ## Whole inputs -/

section Inputs

variable {s : Settings} {fs : FileSystem}

theorem mapM_eq_ok_of_forall₂ {α β ε : Type} {f : α → Except ε β} {items : List α} {results : List β}
    (h : List.Forall₂ (fun item result => f item = .ok result) items results) : items.mapM f = .ok results := by
  induction h with
  | nil => rfl
  | cons hi _ ih =>
    rw [List.mapM_cons, hi, ih]
    rfl

theorem mapM_eq_error {α β ε : Type} {f : α → Except ε β} {front back : List α} {item : α} {e : ε}
    (hfront : ∀ earlier ∈ front, ∃ result, f earlier = .ok result) (he : f item = .error e) :
    (front ++ item :: back).mapM f = .error e := by
  induction front with
  | nil =>
    rw [List.nil_append, List.mapM_cons, he]
    rfl
  | cons first rest ih =>
    obtain ⟨result, hr⟩ := hfront first List.mem_cons_self
    rw [List.cons_append, List.mapM_cons, hr, ih fun earlier hm => hfront earlier (List.mem_cons_of_mem _ hm)]
    rfl

theorem expand_missing {input : Path} (h : fs.pathExists input = false) :
    expand s fs input = .error (.invalidPath input.display) := by
  rw [expand, h]
  rfl

/-- What is discovered in a proper file system, for any settings and inputs. The first input that is not there is
reported. If all are there, each of them stands for a row of archives, and what is discovered are these rows one after
another, without the paths whose components an earlier one has; if there are none, that is reported. -/
theorem discover_of_inputs (s : Settings) {fs : FileSystem} (hfs : fs.Proper) (inputs : List Path) :
    (∀ front input back, inputs = front ++ input :: back → (∀ earlier ∈ front, fs.pathExists earlier = true) →
      fs.pathExists input = false → discover s fs inputs = .error (.invalidPath input.display)) ∧
    ((∀ input ∈ inputs, fs.pathExists input = true) →
      (∃ rows, List.Forall₂ (StandsFor s fs) inputs rows) ∧
      ∀ rows, List.Forall₂ (StandsFor s fs) inputs rows →
        discover s fs inputs =
          if rows.flatten = [] then .error (.noArchivesFound s.output.extensions)
          else .ok (firstOccurrences rows.flatten)) := by
  refine ⟨?_, fun hall => ⟨?_, fun rows hrows => ?_⟩⟩
  · rintro front input back rfl hfront hmissing
    have hexpanded : ∀ earlier ∈ front, ∃ archives, expand s fs earlier = .ok archives := by
      intro earlier hm
      obtain ⟨archives, ha⟩ := exists_standsFor hfs (hfront earlier hm)
      exact ⟨archives, ha.expand_eq hfs⟩
    rw [discover, mapM_eq_error hexpanded (expand_missing hmissing)]
    rfl
  · induction inputs with
    | nil => exact ⟨[], .nil⟩
    | cons input rest ih =>
      obtain ⟨archives, ha⟩ := exists_standsFor (s := s) hfs (hall input List.mem_cons_self)
      obtain ⟨rows, hrows⟩ := ih fun other ho => hall other (List.mem_cons_of_mem _ ho)
      exact ⟨archives :: rows, .cons ha hrows⟩
  · rw [discover, mapM_eq_ok_of_forall₂ (hrows.imp fun input archives ha => ha.expand_eq hfs)]
    simp only [bind, Except.bind, dropRepeats_eq, List.isEmpty_iff, firstOccurrences_eq_nil_iff]
    rfl

end Inputs

/-- A file that is given by itself and found again below a directory, with an output, a link and a file of another kind
next to it; and a path that leads nowhere. -/
theorem discover_overlapping_inputs :
    let s : Settings := { output := { destination := Path.ofText "out" }, jobs := 1 }
    let fs : FileSystem :=
      { nodes := [([Utf8.encode "libs"], .directory), ([Utf8.encode "libs", Utf8.encode "z.jar"], .file []),
          ([Utf8.encode "libs", Utf8.encode "deep"], .directory),
          ([Utf8.encode "libs", Utf8.encode "deep", Utf8.encode "B.JAR"], .file []),
          ([Utf8.encode "libs", Utf8.encode "deep", Utf8.encode "B-sources.jar"], .file []),
          ([Utf8.encode "libs", Utf8.encode "notes.txt"], .file []),
          ([Utf8.encode "libs", Utf8.encode "a.jar"], .link (Path.ofText "z.jar"))]
        workingDirectory := [], temporaryDirectory := [] }
    let inputs := [Path.ofText "libs//z.jar", Path.ofText "libs"]
    let archives := [Path.ofText "libs//z.jar", Path.ofText "libs/deep/B.JAR"]
    fs.Proper ∧ (∀ input ∈ inputs, fs.pathExists input = true) ∧ fs.pathExists (Path.ofText "gone") = false ∧
      discover s fs inputs = .ok archives ∧
      (∃ rows, List.Forall₂ (StandsFor s fs) inputs rows ∧ firstOccurrences rows.flatten = archives) ∧
      discover s fs (inputs ++ [Path.ofText "gone", Path.ofText "lost"]) = .error (.invalidPath "gone") := by
  intro s fs inputs archives
  have hfs : fs.Proper := by
    refine WellFormed.proper (WellFormed.of_nodes (by decide +kernel) rfl fun name h => by cases h) ?_ ?_
    · decide +kernel
    · decide +kernel
  have hall : ∀ input ∈ inputs, fs.pathExists input = true := by
    simp only [inputs, List.forall_mem_cons]
    refine ⟨?_, ?_, fun _ h => by cases h⟩ <;> simp only [fs] <;> cbv
  have hmissing : fs.pathExists (Path.ofText "gone") = false := by
    simp only [fs]
    cbv
  have hfound : discover s fs inputs = .ok archives := by
    simp only [s, fs, inputs, archives]
    cbv
  obtain ⟨rows, hrows⟩ := ((discover_of_inputs s hfs inputs).2 hall).1
  have hrow := ((discover_of_inputs s hfs inputs).2 hall).2 rows hrows
  have herror := (discover_of_inputs s hfs (inputs ++ [Path.ofText "gone", Path.ofText "lost"])).1 inputs _ _ rfl hall
    hmissing
  refine ⟨hfs, hall, hmissing, hfound, ⟨rows, hrows, ?_⟩, herror.trans (by cbv)⟩
  rw [hfound] at hrow
  split at hrow
  · cases hrow
  · exact (Except.ok.inj hrow).symm

end Discovery

end SourceJar
