import SourceJar.Proofs.Conversion
import SourceJar.Proofs.DraftCalls
import SourceJar.Proofs.PathNames

/-!
Names that stay below the place of unpacking.

The names of an archive's entries are checked as it is opened, those of the result are not. They need not be: a
directory of the result is named by the first pieces of a checked name, and a source by those and a name that leads
down, so reading them never climbs higher than reading the checked name did.

- `isSafe_iff`: what the check accepts (`Contained`).
- `Contained.directory`, `Contained.source`: the names that are made of a contained one.
- `performAll_adds`: a run adds entries under the names that its steps ask for, whatever its backend does.
- `contained_target`: these names are contained if those of the archive's entries are.
- `run_contained`: what a run over an opened archive writes.
-/

namespace SourceJar.Split

variable {α : Type} [DecidableEq α]

theorem mem_of_mem_splitOn {sep x : α} {whole piece : List α} (hp : piece ∈ splitOn sep whole) (hx : x ∈ piece) :
    x ∈ whole := by
  induction whole generalizing piece with
  | nil => simp_all [splitOn]
  | cons first rest ih =>
    rw [splitOn] at hp
    split at hp
    · rcases List.mem_cons.mp hp with rfl | hp
      · cases hx
      · exact List.mem_cons_of_mem _ (ih hp hx)
    · obtain ⟨start, pieces, hs⟩ := List.exists_cons_of_ne_nil (splitOn_ne_nil sep rest)
      rw [hs] at hp ih
      rcases List.mem_cons.mp hp with rfl | hp
      · rcases List.mem_cons.mp hx with rfl | hx
        · exact List.mem_cons_self
        · exact List.mem_cons_of_mem _ (ih List.mem_cons_self hx)
      · exact List.mem_cons_of_mem _ (ih (List.mem_cons_of_mem _ hp) hx)

end SourceJar.Split

namespace SourceJar.Archive.EntryName

/-! ## How deep a row of segments leads -/

/-- How many levels a segment leads down. -/
def weight (segment : String) : Int :=
  if segment = "" ∨ segment = "." then 0 else if segment = ".." then -1 else 1

/-- How many levels a row of segments leads down. -/
def depth : List String → Int
  | [] => 0
  | segment :: rest => weight segment + depth rest

/-- At no point has the row led up more often than down. -/
def NeverAbove (row : List String) : Prop := ∀ front, front <+: row → 0 ≤ depth front

theorem depth_append (front back : List String) : depth (front ++ back) = depth front + depth back := by
  induction front with
  | nil => simp [depth]
  | cons segment rest ih =>
    simp only [List.cons_append, depth, ih]
    omega

/-- Empty segments do not count. -/
theorem depth_filter (row : List String) : depth (row.filter (· ≠ "")) = depth row := by
  induction row with
  | nil => rfl
  | cons segment rest ih =>
    by_cases hs : segment = ""
    · rw [List.filter_cons_of_neg (by simpa using hs), ih]
      simp [depth, weight, hs]
    · rw [List.filter_cons_of_pos (by simpa using hs), depth, ih, depth]

theorem NeverAbove.start {front row : List String} (h : NeverAbove row) (hf : front <+: row) : NeverAbove front :=
  fun start hs => h start (hs.trans hf)

/-- A segment that does not lead up may follow. -/
theorem NeverAbove.concat {row : List String} {segment : String} (h : NeverAbove row) (hs : 0 ≤ weight segment) :
    NeverAbove (row ++ [segment]) := by
  intro front hf
  rcases List.prefix_concat_iff.mp hf with rfl | hf
  · have := h row List.prefix_rfl
    simp only [depth_append, depth]
    omega
  · exact h front hf

theorem NeverAbove.filter {row : List String} (h : NeverAbove row) : NeverAbove (row.filter (· ≠ "")) := by
  intro front hf
  obtain ⟨start, hs, rfl⟩ := List.prefix_filter_iff.mp hf
  rw [depth_filter]
  exact h start hs

theorem forall_prefix_cons {d : Nat} {segment : String} {rest : List String} :
    (∀ front, front <+: segment :: rest → 0 ≤ d + depth front) ↔
      ∀ front, front <+: rest → 0 ≤ d + weight segment + depth front := by
  constructor
  · intro h front hf
    have := h (segment :: front) (List.cons_prefix_cons.mpr ⟨rfl, hf⟩)
    rw [depth] at this
    omega
  · intro h front hf
    rcases List.prefix_cons_iff.mp hf with rfl | ⟨start, rfl, hs⟩
    · simp [depth]
    · have := h start hs
      rw [depth]
      omega

/-- Segments can be followed from a depth if they never lead up by more than the depth. -/
theorem isSome_depthAfter_iff {row : List String} {d : Nat} :
    (depthAfter row d).isSome = true ↔ ∀ front, front <+: row → 0 ≤ d + depth front := by
  induction row generalizing d with
  | nil => simp [depthAfter, depth]
  | cons segment rest ih =>
    rw [forall_prefix_cons]
    by_cases hs : segment = "" ∨ segment = "."
    · simp only [depthAfter, weight, if_pos hs, ih, Int.add_zero]
    by_cases hup : segment = ".."
    · simp only [depthAfter, weight, if_neg hs, if_pos hup]
      cases d with
      | zero =>
        simp only [Option.isSome_none, Bool.false_eq_true, false_iff]
        intro h
        simpa [depth] using h [] List.nil_prefix
      | succ d =>
        rw [ih]
        refine forall_congr' fun front => imp_congr_right fun _ => ?_
        omega
    · simp only [depthAfter, weight, if_neg hs, if_neg hup, ih, Int.natCast_add, Int.cast_ofNat_Int]

/-! ## Contained names -/

/-- A name that leads to no place but below the one where it is unpacked. -/
structure Contained (name : String) : Prop where
  noNul : '\x00' ∉ name.toList
  relative : name.toList.head? ≠ some '/'
  neverAbove : NeverAbove (pieces name)

/-- What the check of names accepts. -/
theorem isSafe_iff {name : String} : isSafe name = true ↔ Contained name := by
  have hdepth : (depthAfter (pieces name) 0).isSome = true ↔ NeverAbove (pieces name) := by
    simpa [NeverAbove] using isSome_depthAfter_iff (d := 0)
  simp only [isSafe, Bool.and_eq_true, hdepth, Bool.not_eq_true', List.contains_eq_mem, decide_eq_false_iff_not,
    bne_iff_ne, ne_eq]
  exact ⟨fun h => ⟨h.1.1, h.1.2, h.2⟩, fun h => ⟨⟨h.noNul, h.relative⟩, h.neverAbove⟩⟩

/-- A segment that a contained name can have. -/
structure Sound (segment : String) : Prop where
  plain : Plain segment
  ne : segment ≠ ""
  noNul : '\x00' ∉ segment.toList

theorem Contained.sound {name segment : String} (h : Contained name) (hs : segment ∈ segments name) : Sound segment := by
  refine ⟨plain_of_mem_segments hs, by simpa using (List.mem_filter.mp hs).2, fun hm => h.noNul ?_⟩
  obtain ⟨piece, hp, rfl⟩ := List.mem_map.mp (List.mem_filter.mp hs).1
  rw [String.toList_ofList] at hm
  exact Split.mem_of_mem_splitOn hp hm

/-- The pieces of a path are the names that it is spelled out of. -/
theorem pieces_directoryPath {place : List String} {last : String} (hp : ∀ name ∈ place, Plain name) (hl : Plain last) :
    pieces (directoryPath place ++ last) = place ++ [last] := by
  have hplain : ∀ {name : String}, Plain name → (Split.splitOn '/' name.toList).map String.ofList = [name] := by
    intro name h
    rw [Split.splitOn_of_notMem h, List.map_singleton, String.ofList_toList]
  induction place with
  | nil => simp [pieces, directoryPath, hplain hl]
  | cons first rest ih =>
    obtain ⟨hf, hr⟩ := List.forall_mem_cons.mp hp
    have hcut : (directoryPath (first :: rest) ++ last).toList =
        first.toList ++ '/' :: (directoryPath rest ++ last).toList := by
      simp [directoryPath_cons_append, String.toList_append]
    have hrest := ih hr
    rw [pieces] at hrest ⊢
    rw [hcut, Split.splitOn_append_cons, List.map_append, hplain hf, hrest]
    rfl

theorem notMem_directoryPath {place : List String} {c : Char} (hc : c ≠ '/') (hp : ∀ name ∈ place, c ∉ name.toList) :
    c ∉ (directoryPath place).toList := by
  induction place with
  | nil => simp [directoryPath]
  | cons first rest ih =>
    obtain ⟨hf, hr⟩ := List.forall_mem_cons.mp hp
    simp [directoryPath, String.toList_append, hf, ih hr, hc]

/-- A path is contained if the names on it never lead above its start. -/
theorem contained_path {place : List String} {last : String} (hp : ∀ name ∈ place, Sound name) (hl : Plain last)
    (hn : '\x00' ∉ last.toList) (hd : NeverAbove (place ++ [last])) : Contained (directoryPath place ++ last) where
  noNul := by
    rw [String.toList_append, List.mem_append, not_or]
    exact ⟨notMem_directoryPath (by decide) fun name hm => (hp name hm).noNul, hn⟩
  relative := by
    cases place with
    | nil =>
      rw [directoryPath, String.empty_append]
      exact fun e => hl (List.mem_of_head? e)
    | cons first rest =>
      have hf := hp first List.mem_cons_self
      obtain ⟨c, cs, e⟩ := List.exists_cons_of_ne_nil (mt String.toList_eq_nil_iff.mp hf.ne)
      rw [directoryPath_cons_append, String.append_assoc, String.toList_append, e, List.cons_append, List.head?_cons,
        ne_eq, Option.some.injEq]
      exact fun hc => hf.plain (e ▸ hc ▸ List.mem_cons_self)
  neverAbove := by rwa [pieces_directoryPath (fun name hm => (hp name hm).plain) hl]

/-! ## Names made of contained ones -/

/-- A source's name leads down. -/
theorem weight_source (base : String) : weight (base ++ ".java") = 1 := by
  have hlength : ∀ other : String, other.length < 5 → base ++ ".java" ≠ other := by
    intro other hl e
    have := congrArg String.length e
    rw [String.length_append] at this
    have : ".java".length = 5 := by decide
    omega
  rw [weight, if_neg fun h => h.elim (hlength "" (by decide)) (hlength "." (by decide)),
    if_neg (hlength ".." (by decide))]

section Parts

variable {name : String} {place : List String} (h : Contained name)

include h

/-- The first segments of a contained name spell out a contained one. -/
theorem Contained.directory {rest : List String} (hs : segments name = place ++ rest) :
    Contained (directoryPath place) := by
  have hsound : ∀ other ∈ place, Sound other := fun other hm => h.sound (hs ▸ List.mem_append_left rest hm)
  have hdepth : NeverAbove place := h.neverAbove.filter.start ⟨rest, hs.symm⟩
  have hpath : Contained (directoryPath place ++ "") :=
    contained_path hsound (by decide) (by decide) (hdepth.concat (by decide))
  rwa [String.append_empty] at hpath

/-- So do they with the name of a source in place of that of its class. -/
theorem Contained.source {base : String} (hs : segments name = place ++ [base ++ ".class"]) :
    Contained (directoryPath place ++ (base ++ ".java")) := by
  have hsound : ∀ other ∈ place ++ [base ++ ".class"], Sound other := fun other hm => h.sound (hs ▸ hm)
  have hclass := hsound (base ++ ".class") (by simp)
  have hpart : ∀ c : Char, c ∉ (base ++ ".class").toList → c ∉ ".java".toList → c ∉ (base ++ ".java").toList := by
    intro c hm hjava
    rw [String.toList_append, List.mem_append, not_or] at hm ⊢
    exact ⟨hm.1, hjava⟩
  have hdepth : NeverAbove place := h.neverAbove.filter.start ⟨[base ++ ".class"], hs.symm⟩
  exact contained_path (fun other hm => hsound other (List.mem_append_left _ hm)) (hpart '/' hclass.plain (by decide))
    (hpart '\x00' hclass.noNul (by decide)) (hdepth.concat (by rw [weight_source]; decide))

end Parts

end SourceJar.Archive.EntryName

namespace SourceJar.Traversal

open Archive Archive.EntryName
open Node (insertAll)

variable {σ α : Type}

/-! ## What a run writes -/

/-- The name that a step asks for. -/
def Step.target : Step α → String
  | .directory place name => directoryPath (place ++ [name])
  | .unit place node => directoryPath place ++ node.baseName ++ "." ++ sourceExtension

/-- `d'` has the entries of `d` and after them some under the given names. -/
def Adds (names : List String) (d d' : Draft) : Prop :=
  ∃ new, d'.entries = d.entries ++ new ∧ ∀ entry ∈ new, entry.name ∈ names

theorem Adds.refl (names : List String) (d : Draft) : Adds names d d :=
  ⟨[], (List.append_nil _).symm, fun _ h => absurd h List.not_mem_nil⟩

theorem Adds.trans {names names' : List String} {d d' d'' : Draft} (h : Adds names d d') (h' : Adds names' d' d'') :
    Adds (names ++ names') d d'' := by
  obtain ⟨new, e, hn⟩ := h
  obtain ⟨new', e', hn'⟩ := h'
  refine ⟨new ++ new', by rw [e', e, List.append_assoc], fun entry hm => List.mem_append.mpr ?_⟩
  exact (List.mem_append.mp hm).imp (hn entry) (hn' entry)

/-- A call to a draft adds its entry or none. -/
theorem adds_perform (call : Draft.Call) (d : Draft) : Adds [call.entry.name] d (call.perform d).1 := by
  rcases Draft.perform_cases call d with ⟨-, e⟩ | ⟨-, -, e⟩ | ⟨-, -, e⟩ <;> rw [e]
  · exact Adds.refl _ d
  · exact Adds.refl _ d
  · exact ⟨[call.entry], rfl, fun entry hm => by rw [List.mem_singleton.mp hm]; exact List.mem_cons_self⟩

/-- A step adds an entry under the name that it asks for, or none. -/
theorem perform_adds (h : Host σ α) (step : Step α) (t : Traversal σ) :
    Adds [step.target] t.draft (perform h step t).2.draft := by
  cases step with
  | directory place name =>
    have hcall := adds_perform (.directory (directoryPath (place ++ [name]))) t.draft
    simp only [Draft.Call.entry, Draft.directoryName_of_slash (isDirectory_directoryPath place name)] at hcall
    simp only [perform, addDirectory, Draft.Call.perform] at hcall ⊢
    rcases hd : t.draft.addDirectory (directoryPath (place ++ [name])) with ⟨d, _ | _⟩ <;> rw [hd] at hcall <;>
      exact hcall
  | unit place node =>
    simp only [perform, visitUnit]
    split
    · exact Adds.refl _ _
    · rcases h.decompile node t.state with ⟨_ | text, state⟩
      · exact Adds.refl _ _
      · have hcall := adds_perform (.file (directoryPath place ++ node.baseName ++ "." ++ sourceExtension) text) t.draft
        simp only [addFile, Draft.Call.perform, Draft.Call.entry] at hcall ⊢
        rcases hd : t.draft.addFile (directoryPath place ++ node.baseName ++ "." ++ sourceExtension) text with
          ⟨d, _ | _⟩ <;> rw [hd] at hcall <;> exact hcall

/-- A row of steps adds entries under the names that the steps ask for. -/
theorem performAll_adds (h : Host σ α) (row : List (Step α)) (t : Traversal σ) :
    Adds (row.map Step.target) t.draft (performAll h row t).2.draft := by
  induction row generalizing t with
  | nil => exact Adds.refl _ _
  | cons step rest ih =>
    have hstep := perform_adds h step t
    rw [performAll]
    rcases hp : perform h step t with ⟨_ | _, after⟩ <;> rw [hp] at hstep
    · simpa using hstep.trans (Adds.refl (rest.map Step.target) _)
    · simpa using hstep.trans (ih after)

/-! ## Names of results -/

/-- What a step of an archive's tree asks for is contained if the names of the archive's entries are. -/
theorem contained_target {path : String} {entries : List (String × α)} (hc : ∀ e ∈ entries, Contained e.1)
    {step : Step α} (hs : step ∈ stepsOfAll [] (insertAll path entries [])) : Contained step.target := by
  cases step with
  | directory p x =>
    obtain ⟨e, he, rest, -, hsegments⟩ := (directory_mem_stepsOfAll_insertAll path entries).mp hs
    exact (hc e he).directory hsegments
  | unit p node =>
    obtain ⟨e, he, hf, ho⟩ := (unit_mem_stepsOfAll_insertAll path entries).mp hs
    obtain ⟨-, last, hsegments, rfl⟩ := Node.fileAt?_eq_some_iff.mp hf
    obtain ⟨-, -, hu⟩ := ownStep?_eq_unit_iff.mp ho
    obtain ⟨base, hb, rfl, -⟩ := Node.isUnitName_iff.mp hu
    have htarget : (Step.unit p (Node.file (base ++ ".class") (path ++ directoryPath p ++ (base ++ ".class")) e.2)).target =
        directoryPath p ++ (base ++ ".java") := by
      simp only [Step.target, Node.baseName, Node.cutName_class hb, String.append_assoc]
      rfl
    rw [htarget]
    exact (hc e he).source hsegments

/-- What a run over the tree of an archive adds to a draft is contained. -/
theorem run_buildTree_contained (h : Host σ α) (name path : String) (entries : List (String × α)) (t : Traversal σ) :
    ∃ new, (run h (buildTree name path entries) t).2.draft.entries = t.draft.entries ++ new ∧
      ∀ d ∈ new, Contained d.name := by
  rw [buildTree_eq]
  generalize hsafe : entries.filter (fun e => isSafe e.1) = safe
  have hc : ∀ e ∈ safe, Contained e.1 := by
    intro e he
    rw [← hsafe] at he
    exact isSafe_iff.mp (List.mem_filter.mp he).2
  by_cases hr : (Node.directory name path (insertAll path safe [])).children = []
  · refine ⟨[], ?_, fun _ hm => absurd hm List.not_mem_nil⟩
    rw [run, if_pos (by simp [hr]), List.append_nil]
  · rw [run_eq_performAll h hr]
    obtain ⟨new, e, hn⟩ := performAll_adds h (steps (Node.directory name path (insertAll path safe []))) t
    refine ⟨new, e, fun d hd => ?_⟩
    obtain ⟨step, hs, htarget⟩ := List.mem_map.mp (hn d hd)
    rw [← htarget]
    exact contained_target hc hs

/-- An archive that opens has a name and entries, and its tree is the one they make. -/
theorem openArchive_eq_ok {fs : FileSystem} {p : Path} {root : Entry} (ho : openArchive fs p = .ok root) :
    ∃ name data entries, nameOf p = .ok name ∧ fs.readFile p = .ok data ∧ readEntries data = .ok entries ∧
      root = buildTree name (p.display ++ String.singleton Node.rootMark ++ "/") entries := by
  unfold openArchive at ho
  cases hn : nameOf p with
  | error e =>
    rw [hn] at ho
    cases ho
  | ok name =>
    rw [hn] at ho
    cases hf : fs.readFile p with
    | error e =>
      rw [hf] at ho
      cases ho
    | ok data =>
      rw [hf] at ho
      cases he : readEntries data with
      | error e =>
        simp only [he] at ho
        cases ho
      | ok entries =>
        simp only [he] at ho
        exact ⟨name, data, entries, rfl, rfl, he, (Except.ok.inj ho).symm⟩

theorem exists_eq_buildTree {fs : FileSystem} {p : Path} {root : Entry} (ho : openArchive fs p = .ok root) :
    ∃ name path entries, root = buildTree name path entries := by
  obtain ⟨name, -, entries, -, -, -, e⟩ := openArchive_eq_ok ho
  exact ⟨name, _, entries, e⟩

/-- Whatever an archive holds and a backend does, what a run over the opened archive adds to a draft, also one that
fails or is stopped, has contained names. -/
theorem run_contained (h : Host σ (Except IoFault Bytes)) {fs : FileSystem} {p : Path} {root : Entry}
    (ho : openArchive fs p = .ok root) (t : Traversal σ) :
    ∃ new, (run h root t).2.draft.entries = t.draft.entries ++ new ∧ ∀ d ∈ new, Contained d.name := by
  obtain ⟨name, path, entries, rfl⟩ := exists_eq_buildTree ho
  exact run_buildTree_contained h name path entries t

set_option maxRecDepth 2000 in
/-- Of two classes one has a name that leads up and down again, which stays as it is, and one a name that leads out of
the archive, which is passed over. -/
theorem roundabout_name_written :
    let fs : FileSystem :=
      { nodes := [([Utf8.encode "lib.jar"],
          .file (Zip.encode [⟨"a/..//X.class", []⟩, ⟨"../Y.class", []⟩]))]
        workingDirectory := [], temporaryDirectory := [] }
    let h : Host Unit (Except IoFault Bytes) :=
      { stops := fun _ => false, decompile := fun _ s => (.ok "", s), report := fun _ s => s }
    ∃ root, openArchive fs (Path.ofText "lib.jar") = .ok root ∧
      (run h root { state := () }).2.draft.entries.map DraftEntry.name =
        ["a/", "a/../", "a/../X.java"] ∧
      ∀ d ∈ (run h root { state := () }).2.draft.entries, Contained d.name := by
  intro fs h
  have hrun : ((openArchive fs (Path.ofText "lib.jar")).toOption.map fun root =>
      (run h root { state := () }).2.draft.entries.map DraftEntry.name) =
        some ["a/", "a/../", "a/../X.java"] := by
    simp only [fs, h]
    cbv
  cases ho : openArchive fs (Path.ofText "lib.jar") with
  | error e =>
    rw [ho] at hrun
    cases hrun
  | ok root =>
    rw [ho] at hrun
    obtain ⟨new, e, hn⟩ := run_contained h ho { state := () }
    exact ⟨root, rfl, Option.some.inj hrun, fun d hd => hn d (by rwa [e, List.nil_append] at hd)⟩

end SourceJar.Traversal
