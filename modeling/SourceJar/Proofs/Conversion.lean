import SourceJar.Proofs.TreeGrowth
import SourceJar.Proofs.Walks
import SourceJar.Proofs.WrittenEntries

/-!
From the entries of an archive to the entries of the converted one.

Opening an archive builds the tree of its entries, and a traversal of the tree writes the result. Put
together, trees no longer show: the directories of the result are the places that entries lead through
(`LeadsThrough`), and its files are the sources of the classes that entries give one for, the first of them
for each path (`FirstGives`). The contents of entries are left open and answers may depend on them, so each
entry can have an answer of its own.

- `mem_asked`: what the steps of the tree ask for.
- `find?_asked`: of several sources with one path, the first comes from the first entry.
- `directories_first`: directories come before what is in them.
- `run_buildTree`: what a whole conversion gives.
-/

namespace SourceJar.Traversal

open Archive Archive.EntryName
open Node (Apart atPlace files fileAt? insertAll)

variable {σ α : Type}

/-! ## What the entries of an archive stand for -/

section

variable (path : String) (answer : Node α → Except UnitFailure String) (entries : List (String × α))

/-- Some entry has more names than those that lead to the directory `p`. -/
def LeadsThrough (p : List String) : Prop := ∃ e ∈ entries, ∃ rest, rest ≠ [] ∧ segments e.1 = p ++ rest

/-- The entry is the class `base` in the directory `dir`, and `text` is its source. -/
structure Gives (e : String × α) (dir : List String) (base text : String) : Prop where
  isFile : isDirectory e.1 = false
  names : segments e.1 = dir ++ [base ++ ".class"]
  named : base ≠ ""
  outermost : Node.nestedMark ∉ (base ++ ".class").toList
  answered : answer (.file (base ++ ".class") (path ++ directoryPath dir ++ (base ++ ".class")) e.2) = .ok text

/-- Of the entries that give a source for the class, the first gives `text`. -/
def FirstGives (dir : List String) (base text : String) : Prop :=
  ∃ front e back, entries = front ++ e :: back ∧ Gives path answer e dir base text ∧
    ∀ other ∈ front, ∀ text', ¬Gives path answer other dir base text'

end

/-! ## What steps ask for -/

/-- The entry that a step asks for if answers depend on nothing but the unit. -/
def entryFor? (answer : Node α → Except UnitFailure String) : Step α → Option DraftEntry
  | .directory place name => some ⟨directoryPath (place ++ [name]), true, ""⟩
  | .unit place node =>
    match answer node with
    | .ok text => some ⟨directoryPath place ++ node.baseName ++ "." ++ sourceExtension, false, text⟩
    | .error _ => none

variable {path : String} {answer : Node α → Except UnitFailure String} {entries : List (String × α)}

theorem written_eq_filterMap {h : Host σ α} (ha : ∀ unit s, (h.decompile unit s).1 = answer unit)
    (row : List (Step α)) (s : σ) :
    written row (h.answers (row.filterMap Step.unit?) s) = row.filterMap (entryFor? answer) := by
  induction row generalizing s with
  | nil => rfl
  | cons step rest ih =>
    cases step with
    | directory place name => exact congrArg (_ :: ·) (ih s)
    | unit place node =>
      simp only [List.filterMap_cons, Step.unit?, Host.answers, written, ih, ha, entryFor?, entryOf]
      rcases answer node with _ | text <;> rfl

/-- The entry that is asked for because of the file that an entry puts at a place. -/
def sourceAt? (path : String) (answer : Node α → Except UnitFailure String) (p : List String) (e : String × α) :
    Option DraftEntry :=
  (fileAt? path p e).bind fun node => (ownStep? p node).bind (entryFor? answer)

theorem sourceAt?_eq_some_iff {p : List String} {e : String × α} {d : DraftEntry} :
    sourceAt? path answer p e = some d ↔
      ∃ base text, Gives path answer e p base text ∧ d = ⟨directoryPath p ++ base ++ ".java", false, text⟩ := by
  have hname : ∀ base : String, directoryPath p ++ base ++ "." ++ sourceExtension =
      directoryPath p ++ base ++ ".java" := by
    intro base
    rw [String.append_assoc]; rfl
  constructor
  · intro h
    obtain ⟨node, hf, h⟩ := Option.bind_eq_some_iff.mp h
    obtain ⟨step, hs, h⟩ := Option.bind_eq_some_iff.mp h
    obtain ⟨hd, last, hl, rfl⟩ := Node.fileAt?_eq_some_iff.mp hf
    simp only [ownStep?, Option.ite_none_right_eq_some, Option.some.injEq] at hs
    obtain ⟨hu, rfl⟩ := hs
    obtain ⟨base, hb, rfl, hn⟩ := Node.isUnitName_iff.mp hu
    simp only [entryFor?, Node.baseName, Node.cutName_class hb, hname] at h
    split at h
    · rename_i text ha
      exact ⟨base, text, ⟨hd, hl, hb, hn, ha⟩, (Option.some.inj h).symm⟩
    · cases h
  · intro h
    obtain ⟨base, text, h, rfl⟩ := h
    have hu : Node.isUnitName (base ++ ".class") = true :=
      Node.isUnitName_iff.mpr ⟨base, h.named, rfl, h.outermost⟩
    rw [sourceAt?, Node.fileAt?_eq_some_iff.mpr ⟨h.isFile, _, h.names, rfl⟩]
    simp only [Option.bind_some, ownStep?, hu, if_true, entryFor?, h.answered, Node.baseName,
      Node.cutName_class h.named, hname]

/-! ## What the tree of some entries asks for -/

section

variable (path entries)

theorem directory_mem_stepsOfAll_insertAll {p : List String} {x : String} :
    .directory p x ∈ stepsOfAll [] (insertAll path entries []) ↔ LeadsThrough entries (p ++ [x]) := by
  rw [directory_mem_stepsOfAll (Node.apart_insertAll path entries Node.apart_nil), Node.atPlace_insertAll_ne_nil]
  simp [LeadsThrough]

theorem unit_mem_stepsOfAll_insertAll {p : List String} {node : Node α} :
    .unit p node ∈ stepsOfAll [] (insertAll path entries []) ↔
      ∃ e ∈ entries, fileAt? path p e = some node ∧ ownStep? p node = some (.unit p node) := by
  rw [unit_mem_stepsOfAll (Node.apart_insertAll path entries Node.apart_nil), Node.files_atPlace_insertAll,
    Node.atPlace_nil, ownStep?_eq_unit_iff]
  simp only [files, List.filter_nil, List.nil_append, List.mem_filterMap, true_and]
  constructor
  · intro h
    obtain ⟨⟨e, he, hf⟩, hu⟩ := h
    exact ⟨e, he, hf, hu⟩
  · intro h
    obtain ⟨e, he, hf, hu⟩ := h
    exact ⟨⟨e, he, hf⟩, hu⟩

/-- What a unit asks for is asked for because of an entry. -/
theorem sourceAt?_of_unit {p : List String} {node : Node α} {d : DraftEntry}
    (hs : .unit p node ∈ stepsOfAll [] (insertAll path entries []))
    (hd : entryFor? answer (.unit p node) = some d) : ∃ e ∈ entries, sourceAt? path answer p e = some d := by
  obtain ⟨e, he, hf, ho⟩ := (unit_mem_stepsOfAll_insertAll path entries).mp hs
  exact ⟨e, he, by rw [sourceAt?, hf, Option.bind_some, ho, Option.bind_some, hd]⟩

/-- The steps ask for the directories that entries lead through and for the sources that entries give. -/
theorem mem_asked {d : DraftEntry} :
    d ∈ (stepsOfAll [] (insertAll path entries [])).filterMap (entryFor? answer) ↔
      (∃ p x, LeadsThrough entries (p ++ [x]) ∧ d = ⟨directoryPath (p ++ [x]), true, ""⟩) ∨
        ∃ e ∈ entries, ∃ dir base text, Gives path answer e dir base text ∧
          d = ⟨directoryPath dir ++ base ++ ".java", false, text⟩ := by
  rw [List.mem_filterMap]
  constructor
  · intro h
    obtain ⟨step, hs, hd⟩ := h
    cases step with
    | directory p x =>
      exact Or.inl ⟨p, x, (directory_mem_stepsOfAll_insertAll path entries).mp hs, (Option.some.inj hd).symm⟩
    | unit p node =>
      obtain ⟨e, he, hd⟩ := sourceAt?_of_unit path entries hs hd
      obtain ⟨base, text, hg, rfl⟩ := sourceAt?_eq_some_iff.mp hd
      exact Or.inr ⟨e, he, p, base, text, hg, rfl⟩
  · intro h
    rcases h with ⟨p, x, hl, rfl⟩ | ⟨e, he, dir, base, text, hg, rfl⟩
    · exact ⟨.directory p x, (directory_mem_stepsOfAll_insertAll path entries).mpr hl, rfl⟩
    · obtain ⟨node, hf, hd⟩ := Option.bind_eq_some_iff.mp (sourceAt?_eq_some_iff.mpr ⟨base, text, hg, rfl⟩)
      obtain ⟨step, ho, hd⟩ := Option.bind_eq_some_iff.mp hd
      obtain ⟨-, last, -, rfl⟩ := Node.fileAt?_eq_some_iff.mp hf
      have hstep := ho
      simp only [ownStep?, Option.ite_none_right_eq_some, Option.some.injEq] at hstep
      obtain ⟨-, rfl⟩ := hstep
      exact ⟨_, (unit_mem_stepsOfAll_insertAll path entries).mpr ⟨e, he, hf, ho⟩, hd⟩

end

/-! ## The first source of a class -/

/-- A search does not miss what was filtered out before if it would not have accepted it. -/
theorem find?_filterMap_filter {β γ : Type} {f : β → Option γ} {accepts : γ → Bool} {keeps : β → Bool}
    {row : List β} (h : ∀ x ∈ row, ∀ y, f x = some y → accepts y = true → keeps x = true) :
    ((row.filter keeps).filterMap f).find? accepts = (row.filterMap f).find? accepts := by
  induction row with
  | nil => rfl
  | cons x rest ih =>
    have hr := ih fun x hx => h x (List.mem_cons_of_mem _ hx)
    rw [List.filter_cons]
    rcases hf : f x with _ | y
    · split <;> simp only [List.filterMap_cons, hf, hr]
    · split
      · simp only [List.filterMap_cons, hf, List.find?_cons, hr]
      · rename_i hk
        have ha : accepts y = false := by
          cases ha : accepts y with
          | false => rfl
          | true => exact absurd (h x List.mem_cons_self y hf ha) hk
        simp only [List.filterMap_cons, hf, List.find?_cons, ha, hr]

theorem Gives.plain {e : String × α} {dir : List String} {base text : String}
    (h : Gives path answer e dir base text) : (∀ name ∈ dir, Plain name) ∧ Plain base := by
  have hn : ∀ name ∈ dir ++ [base ++ ".class"], Plain name := fun name hm => plain_of_mem_segments (h.names ▸ hm)
  refine ⟨fun name hm => hn name (List.mem_append_left _ hm), fun hm => ?_⟩
  refine hn (base ++ ".class") (List.mem_append_right _ List.mem_cons_self) ?_
  rw [String.toList_append]
  exact List.mem_append_left _ hm

theorem plain_java {base : String} (h : Plain base) : Plain (base ++ ".java") := h.append (by decide)

/-- No directory has the path of a source. -/
theorem directoryPath_ne_source {p dir : List String} {x base : String} (hbase : Plain base) :
    directoryPath (p ++ [x]) ≠ directoryPath dir ++ base ++ ".java" := by
  intro h
  have hd := isDirectory_directoryPath p x
  have hne : base ++ ".java" ≠ "" := by simp
  rw [h, String.append_assoc, (plain_java hbase).not_isDirectory hne] at hd
  cases hd

/-- What is asked for with the path of a class's source is a source of that class. -/
theorem sourceAt?_of_name {e : String × α} {p dir : List String} {base : String} (hdir : ∀ name ∈ dir, Plain name)
    (hbase : Plain base) {d : DraftEntry} (hd : sourceAt? path answer p e = some d)
    (hn : d.name = directoryPath dir ++ base ++ ".java") :
    p = dir ∧ ∃ text, Gives path answer e dir base text ∧
      d = ⟨directoryPath dir ++ base ++ ".java", false, text⟩ := by
  obtain ⟨base', text, hg, rfl⟩ := sourceAt?_eq_some_iff.mp hd
  obtain ⟨hp, hb⟩ := hg.plain
  simp only [String.append_assoc] at hn
  obtain ⟨rfl, e⟩ := directoryPath_inj hp hdir (plain_java hb) (plain_java hbase) hn
  obtain rfl := (String.append_left_inj ".java").mp e
  exact ⟨rfl, text, hg, rfl⟩

/-- A search for the path of a source need only look at the entries that put a file in its directory. -/
theorem find?_asked_eq {dir : List String} {base : String} (hdir : ∀ name ∈ dir, Plain name) (hbase : Plain base) :
    ((stepsOfAll [] (insertAll path entries [])).filterMap (entryFor? answer)).find?
        (fun d => d.name = directoryPath dir ++ base ++ ".java") =
      (entries.filterMap (sourceAt? path answer dir)).find?
        (fun d => d.name = directoryPath dir ++ base ++ ".java") := by
  have hapart : Apart (insertAll path entries []) := Node.apart_insertAll path entries Node.apart_nil
  -- only steps at the place of the source ask for it
  have hplace : ∀ step ∈ stepsOfAll [] (insertAll path entries []), ∀ d, entryFor? answer step = some d →
      decide (d.name = directoryPath dir ++ base ++ ".java") = true → decide (step.place = [] ++ dir) = true := by
    intro step hs d hd hn
    cases step with
    | directory p x =>
      obtain rfl := Option.some.inj hd
      exact absurd (of_decide_eq_true hn) (directoryPath_ne_source hbase)
    | unit p node =>
      obtain ⟨e, -, hd⟩ := sourceAt?_of_unit path entries hs hd
      exact decide_eq_true (sourceAt?_of_name hdir hbase hd (of_decide_eq_true hn)).1
  -- of what stands there, only files do
  have hfile : ∀ node ∈ atPlace dir (insertAll path entries []), ∀ d,
      (ownStep? ([] ++ dir) node).bind (entryFor? answer) = some d →
      decide (d.name = directoryPath dir ++ base ++ ".java") = true → (!node.isDirectory) = true := by
    intro node _ d hd hn
    cases node with
    | directory x xPath children =>
      obtain ⟨step, ho, hd⟩ := Option.bind_eq_some_iff.mp hd
      simp only [ownStep?, Option.ite_none_left_eq_some, Option.some.injEq] at ho
      obtain ⟨-, rfl⟩ := ho
      obtain rfl := Option.some.inj hd
      exact absurd (of_decide_eq_true hn) (directoryPath_ne_source hbase)
    | file x xPath content => rfl
  rw [← find?_filterMap_filter hplace, filter_place_stepsOfAll [] dir hapart, List.filterMap_filterMap,
    ← find?_filterMap_filter hfile, ← files, Node.files_atPlace_insertAll, Node.atPlace_nil, files,
    List.filter_nil]
  simp only [List.nil_append, List.filterMap_filterMap]
  rfl

/-- Of the entries asked for with the path of a source, the first is from the first entry that gives it. -/
theorem find?_asked {dir : List String} {base : String} (hdir : ∀ name ∈ dir, Plain name) (hbase : Plain base)
    {d : DraftEntry} :
    ((stepsOfAll [] (insertAll path entries [])).filterMap (entryFor? answer)).find?
        (fun d => d.name = directoryPath dir ++ base ++ ".java") = some d ↔
      ∃ text, FirstGives path answer entries dir base text ∧
        d = ⟨directoryPath dir ++ base ++ ".java", false, text⟩ := by
  rw [find?_asked_eq hdir hbase, List.find?_filterMap, Option.bind_eq_some_iff]
  constructor
  · intro h
    obtain ⟨e, hfind, hd⟩ := h
    obtain ⟨hp, front, back, rfl, hfront⟩ := List.find?_eq_some_iff_append.mp hfind
    rw [hd] at hp
    obtain ⟨-, text, hg, rfl⟩ := sourceAt?_of_name hdir hbase hd (of_decide_eq_true hp)
    refine ⟨text, ⟨front, e, back, rfl, hg, fun other ho text' hg' => ?_⟩, rfl⟩
    have := hfront other ho
    rw [sourceAt?_eq_some_iff.mpr ⟨base, text', hg', rfl⟩] at this
    simp at this
  · intro h
    obtain ⟨text, ⟨front, e, back, rfl, hg, hfront⟩, rfl⟩ := h
    have hd := sourceAt?_eq_some_iff.mpr ⟨base, text, hg, rfl⟩
    refine ⟨e, List.find?_eq_some_iff_append.mpr ⟨?_, front, back, rfl, fun other ho => ?_⟩, hd⟩
    · rw [hd]
      exact decide_eq_true rfl
    · rcases hother : sourceAt? path answer dir other with _ | d
      · rfl
      · simp only [Option.any_some, Bool.not_eq_true', decide_eq_false_iff_not]
        intro hn
        obtain ⟨-, text', hg', -⟩ := sourceAt?_of_name hdir hbase hother hn
        exact hfront other ho text' hg'

/-! ## A whole conversion -/

/-- What is asked for with the path of a directory is that directory. -/
theorem eq_of_mem_asked {p : List String} {x : String} {d : DraftEntry}
    (hd : d ∈ (stepsOfAll [] (insertAll path entries [])).filterMap (entryFor? answer))
    (hn : d.name = directoryPath (p ++ [x])) : d = ⟨directoryPath (p ++ [x]), true, ""⟩ := by
  rcases (mem_asked path entries).mp hd with ⟨p', x', -, rfl⟩ | ⟨e, -, dir, base, text, hg, rfl⟩
  · rw [← hn]
  · exact absurd hn.symm (directoryPath_ne_source hg.plain.2)

/-- What is written of what the tree of some entries asks for. -/
theorem mem_firstNew_asked {d : DraftEntry} :
    d ∈ firstNew [] ((stepsOfAll [] (insertAll path entries [])).filterMap (entryFor? answer)) ↔
      (∃ p, p ≠ [] ∧ LeadsThrough entries p ∧ d = ⟨directoryPath p, true, ""⟩) ∨
        ∃ dir base text, FirstGives path answer entries dir base text ∧
          d = ⟨directoryPath dir ++ base ++ ".java", false, text⟩ := by
  constructor
  · intro h
    obtain ⟨-, hfind⟩ := mem_firstNew.mp h
    rcases (mem_asked path entries).mp (List.mem_of_find?_eq_some hfind) with
      ⟨p, x, hl, rfl⟩ | ⟨e, -, dir, base, text, hg, rfl⟩
    · exact Or.inl ⟨p ++ [x], by simp, hl, rfl⟩
    · obtain ⟨text', hf, e⟩ := (find?_asked hg.plain.1 hg.plain.2).mp hfind
      exact Or.inr ⟨dir, base, text', hf, e⟩
  · intro h
    rcases h with ⟨p, hp, hl, rfl⟩ | ⟨dir, base, text, hf, rfl⟩
    · obtain ⟨q, x, rfl⟩ : ∃ q x, p = q ++ [x] := ⟨_, _, (List.dropLast_concat_getLast hp).symm⟩
      refine mem_firstNew_of_unique ((mem_asked path entries).mpr (Or.inl ⟨q, x, hl, rfl⟩)) ?_
      exact fun other ho hn => eq_of_mem_asked ho hn
    · have ⟨_, e, _, _, hg, _⟩ := hf
      exact mem_firstNew.mpr ⟨List.not_mem_nil, (find?_asked hg.plain.1 hg.plain.2).mpr ⟨text, hf, rfl⟩⟩

theorem LeadsThrough.plain {p : List String} (h : LeadsThrough entries p) : ∀ name ∈ p, Plain name := by
  obtain ⟨e, -, rest, -, hs⟩ := h
  exact fun name hn => plain_of_mem_segments (hs ▸ List.mem_append_left rest hn)

/-- Where the path that a step asks for has a slash before its end, the path of a directory on the way to
the step ends. -/
theorem exists_directory_above {step : Step α} (hs : step ∈ stepsOfAll [] (insertAll path entries []))
    {d : DraftEntry} (hd : entryFor? answer step = some d) {q r : String} (hr : r ≠ "")
    (hn : d.name = q ++ "/" ++ r) :
    ∃ p x back, step.place = p ++ x :: back ∧ q ++ "/" = directoryPath (p ++ [x]) := by
  cases step with
  | directory p x =>
    obtain rfl := Option.some.inj hd
    have hplain := ((directory_mem_stepsOfAll_insertAll path entries).mp hs).plain
    have hn' : directoryPath (p ++ [x]) ++ "" = q ++ "/" ++ r := by rw [String.append_empty]; exact hn
    obtain ⟨front, name, back, hp, hq, hback⟩ := directoryPath_split hplain (by decide) hn'
    have hne : back ≠ [] := fun e => hr (by rw [hback, e]; rfl)
    rw [← List.dropLast_concat_getLast hne, ← List.cons_append, ← List.append_assoc] at hp
    exact ⟨front, name, back.dropLast, List.append_inj_left' hp rfl, hq⟩
  | unit p node =>
    obtain ⟨e, -, hd⟩ := sourceAt?_of_unit path entries hs hd
    obtain ⟨base, text, hg, rfl⟩ := sourceAt?_eq_some_iff.mp hd
    obtain ⟨hp, hb⟩ := hg.plain
    have hn' : directoryPath p ++ (base ++ ".java") = q ++ "/" ++ r := by rw [← String.append_assoc]; exact hn
    obtain ⟨front, name, back, hp, hq, -⟩ := directoryPath_split hp (plain_java hb) hn'
    exact ⟨front, name, back, hp, hq⟩

/-- An entry is written after the directories above it. -/
theorem directories_first {front back : List DraftEntry} {d : DraftEntry}
    (h : firstNew [] ((stepsOfAll [] (insertAll path entries [])).filterMap (entryFor? answer)) =
      front ++ d :: back) {q r : String} (hr : r ≠ "") (hn : d.name = q ++ "/" ++ r) : ⟨q ++ "/", true, ""⟩ ∈ front := by
  obtain ⟨rowFront, rowBack, hrow, rfl⟩ := firstNew_split h
  obtain ⟨before, after, hsteps, hbefore, hafter⟩ := List.filterMap_eq_append_iff.mp hrow
  obtain ⟨silent, step, rest, rfl, hsilent, hd, -⟩ := List.filterMap_eq_cons_iff.mp hafter
  rw [← List.append_assoc] at hsteps
  have hstep : step ∈ stepsOfAll [] (insertAll path entries []) :=
    hsteps ▸ List.mem_append_right _ List.mem_cons_self
  obtain ⟨p, x, way, hplace, hq⟩ := exists_directory_above hstep hd hr hn
  have hparent : .directory p x ∈ before ++ silent := by
    refine parentsFirst_stepsOfAll [] _ (before ++ silent) step rest hsteps p x ?_
    rw [hplace]
    exact ⟨way, by simp⟩
  have hasked : ⟨directoryPath (p ++ [x]), true, ""⟩ ∈ rowFront := by
    rcases List.mem_append.mp hparent with hm | hm
    · exact hbefore ▸ List.mem_filterMap.mpr ⟨_, hm, rfl⟩
    · cases hsilent _ hm
  rw [hq]
  refine mem_firstNew_of_unique hasked fun other ho hn => ?_
  exact eq_of_mem_asked (hrow ▸ List.mem_append_left _ ho) hn

/-- What a run over a tree writes if answers depend on nothing but the unit. -/
theorem run_writes_asked (h : Host σ α) (hs : ∀ s, h.stops s = false)
    (ha : ∀ unit s, (h.decompile unit s).1 = answer unit) {root : Node α} (hr : root.children ≠ []) (s : σ) :
    ∃ t, run h root { state := s } = (.ok (), t) ∧
      t.draft.entries = firstNew [] ((steps root).filterMap (entryFor? answer)) := by
  obtain ⟨d, e, ht⟩ := performAll_takes h (steps root) (t := { state := s }) Draft.named_fresh
    (h.undisturbed_of_never hs _ s)
  refine ⟨_, (run_eq_performAll h hr _).trans e, ?_⟩
  rw [← written_eq_filterMap ha]
  exact ht.entries

/-- Converting an archive, from its entries to those of the result. Without a safe entry that has a name the
archive counts as empty. Otherwise the conversion succeeds, and the result holds a directory for every place
that a safe entry leads through and a source for every class that a safe entry gives one for, the first of
them if there are several; nothing else, no name twice, and everything after the directories above it. -/
theorem run_buildTree (h : Host σ α) (hs : ∀ s, h.stops s = false) (answer : Node α → Except UnitFailure String)
    (ha : ∀ unit s, (h.decompile unit s).1 = answer unit) (name path : String) (entries : List (String × α))
    (s : σ) :
    let safe := entries.filter fun e => isSafe e.1
    let outcome := run h (buildTree name path entries) { state := s }
    let result := outcome.2.draft.entries
    (outcome.1 = .error (.emptyArchive name) ↔ ∀ e ∈ safe, segments e.1 = []) ∧
    ((∃ e ∈ safe, segments e.1 ≠ []) →
      outcome.1 = .ok () ∧
      (result.map DraftEntry.name).Nodup ∧
      (∀ d, d ∈ result ↔
        (∃ p, p ≠ [] ∧ LeadsThrough safe p ∧ d = ⟨directoryPath p, true, ""⟩) ∨
          ∃ dir base text, FirstGives path answer safe dir base text ∧
            d = ⟨directoryPath dir ++ base ++ ".java", false, text⟩) ∧
      ∀ front d back, result = front ++ d :: back →
        ∀ q r, r ≠ "" → d.name = q ++ "/" ++ r → ⟨q ++ "/", true, ""⟩ ∈ front) := by
  rw [buildTree_eq]
  intro safe outcome result
  have hroot : insertAll path safe [] ≠ [] ↔ ∃ e ∈ safe, segments e.1 ≠ [] := by
    simpa [atPlace] using Node.atPlace_insertAll_ne_nil path [] safe []
  have hok : (∃ e ∈ safe, segments e.1 ≠ []) → outcome.1 = .ok () ∧
      result = firstNew [] ((stepsOfAll [] (insertAll path safe [])).filterMap (entryFor? answer)) := by
    intro hne
    have hr : (Node.directory name path (insertAll path safe [])).children ≠ [] := hroot.mpr hne
    obtain ⟨t, e, ht⟩ := run_writes_asked h hs ha hr s
    exact ⟨congrArg Prod.fst e, (congrArg (fun outcome => outcome.2.draft.entries) e).trans ht⟩
  refine ⟨⟨fun he => ?_, fun hall => ?_⟩, fun hne => ?_⟩
  · intro e hsafe
    apply Classical.byContradiction
    intro hne
    rw [(hok ⟨e, hsafe, hne⟩).1] at he
    cases he
  · have hempty : insertAll path safe [] = [] := Classical.byContradiction fun hne => by
      obtain ⟨e, he, hs⟩ := hroot.mp hne
      exact hs (hall e he)
    show (run h (.directory name path (insertAll path safe [])) { state := s }).1 = _
    rw [run, if_pos (by simpa [Node.children] using hempty)]
    rfl
  · obtain ⟨hout, hres⟩ := hok hne
    refine ⟨hout, ?_, fun d => ?_, fun front d back e q r hr hn => ?_⟩
    · rw [hres]
      exact nodup_firstNew _ _
    · rw [hres]
      exact mem_firstNew_asked
    · exact directories_first (hres.symm.trans e) hr hn

/-- A directory with nothing in it, a doubled slash, an unsafe name, directories that no entry stands for, a
file and a directory of one name, a nested class, a class that is there twice and one that is refused first. -/
theorem mixed_archive_converted :
    let answer : Node (Option String) → Except UnitFailure String
      | .file _ _ (some text) => .ok text
      | node => .error (.refused node.name "")
    let h : Host Unit (Option String) :=
      { stops := fun _ => false, decompile := fun unit _ => (answer unit, ()), report := fun _ _ => () }
    let entries := [("META-INF/", none), ("com/acme//Foo.class", some "first"), ("../Evil.class", some ""),
      ("com/", none), ("com/acme/Foo.class", some "second"), ("com/acme/Foo$1.class", some ""), ("lib", none),
      ("com/acme/Bar.class", none), ("com/acme/Bar.class", some "bar"), ("lib/notes.txt", none)]
    let outcome := run h (buildTree "lib.jar" "lib.jar!/" entries) { state := () }
    outcome.1 = .ok () ∧ outcome.2.draft.entries = [⟨"com/", true, ""⟩, ⟨"com/acme/", true, ""⟩,
      ⟨"com/acme/Foo.java", false, "first"⟩, ⟨"com/acme/Bar.java", false, "bar"⟩, ⟨"lib/", true, ""⟩] := by
  intro answer h entries outcome
  have hne : ∃ e ∈ entries.filter fun e => isSafe e.1, segments e.1 ≠ [] :=
    ⟨("lib", none), by decide +kernel, by decide +kernel⟩
  have hrun := run_buildTree h (fun _ => rfl) answer (fun _ _ => rfl) "lib.jar" "lib.jar!/" entries ()
  refine ⟨(hrun.2 hne).1, ?_⟩
  decide +kernel

end SourceJar.Traversal
