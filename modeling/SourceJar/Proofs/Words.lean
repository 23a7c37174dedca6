import Mathlib.Data.List.TakeWhile
import SourceJar.Text.Blank

/-!
The words of a text.

A run is a stretch of a text without blanks that goes no further to either side (`IsRun`). A text begins with a blank or
with a run, so what holds of texts is shown by induction over what stands behind (`run_induction`). The words of a text
are its runs in order, for what stands behind a blank or a run has its runs at its own places (`AreRuns.append`).

- `words_areRuns`: the words of a text are its runs, in order.
- `words_eq_nil_iff`, `trim_isEmpty_iff`: the texts without a word are those that nothing is left of when trimmed.
- `words_intercalate`: words with single blanks between them are read as the same words.
-/

namespace SourceJar.Text

/-! ## Runs -/

/-- A character other than a blank stands at a place of a text. -/
def Inked (text : List Char) (i : Nat) : Prop := ∃ c, text[i]? = some c ∧ isBlank c = false

/-- From `start` to before `stop` there are no blanks, and this goes no further to either side. -/
structure IsRun (text : List Char) (start stop : Nat) : Prop where
  start_lt : start < stop
  inked : ∀ i, start ≤ i → i < stop → Inked text i
  opened : ∀ i, i + 1 = start → ¬Inked text i
  closed : ¬Inked text stop

/-- All runs of a text, in order. -/
def AreRuns (text : List Char) (runs : List (List Char)) : Prop :=
  ∃ spans : List (Nat × Nat), spans.Pairwise (fun a b => a.1 < b.1) ∧
    (∀ start stop, (start, stop) ∈ spans ↔ IsRun text start stop) ∧
    runs = spans.map fun (start, stop) => text.extract start stop

theorem inked_append_left {front : List Char} (back : List Char) {i : Nat} (h : i < front.length) :
    Inked (front ++ back) i ↔ Inked front i := by
  rw [Inked, Inked, List.getElem?_append_left h]

theorem inked_append_right (front back : List Char) (i : Nat) :
    Inked (front ++ back) (front.length + i) ↔ Inked back i := by
  rw [Inked, Inked, List.getElem?_append_right (Nat.le_add_right _ _), Nat.add_sub_cancel_left]

theorem inked_of_no_blank {text : List Char} (h : ∀ c ∈ text, isBlank c = false) {i : Nat} (hi : i < text.length) :
    Inked text i :=
  ⟨text[i], List.getElem?_eq_getElem hi, h _ (List.getElem_mem hi)⟩

theorem not_inked_nil (i : Nat) : ¬Inked [] i := by
  rintro ⟨c, hc, -⟩
  cases hc

/-- No character but a blank stands at the front of a text that is empty or begins with a blank. -/
theorem not_inked_front {text : List Char} (h : ∀ c ∈ text.head?, isBlank c = true) : ¬Inked text 0 := by
  rintro ⟨c, hc, hinked⟩
  rw [h c (by rwa [List.head?_eq_getElem?])] at hinked
  cases hinked

theorem not_inked_cons {c : Char} (hc : isBlank c = true) (rest : List Char) : ¬Inked (c :: rest) 0 :=
  not_inked_front fun _ h => Option.some.inj h ▸ hc

section Append

variable {front back : List Char}

/-- Behind a text that no run goes on from, the runs are those of what stands there. -/
theorem isRun_append (hcut : ∀ i, i + 1 = front.length → Inked front i → ¬Inked back 0) (start stop : Nat) :
    IsRun (front ++ back) (front.length + start) (front.length + stop) ↔ IsRun back start stop := by
  constructor
  · rintro ⟨hlt, hinked, hopened, hclosed⟩
    refine ⟨by omega, fun i hi hi' => ?_, fun i hi => ?_, ?_⟩
    · exact (inked_append_right front back i).mp (hinked _ (by omega) (by omega))
    · rw [← inked_append_right front back i]
      exact hopened _ (by omega)
    · rwa [← inked_append_right front back stop]
  · rintro ⟨hlt, hinked, hopened, hclosed⟩
    refine ⟨by omega, fun i hi hi' => ?_, fun i hi => ?_, ?_⟩
    · obtain ⟨j, rfl⟩ := Nat.exists_eq_add_of_le (show front.length ≤ i by omega)
      exact (inked_append_right front back j).mpr (hinked j (by omega) (by omega))
    · by_cases hlast : i < front.length
      · obtain rfl : start = 0 := by omega
        rw [inked_append_left back hlast]
        exact fun h => hcut i (by omega) h (hinked 0 (Nat.le_refl 0) hlt)
      · obtain ⟨j, rfl⟩ := Nat.exists_eq_add_of_le (Nat.not_lt.mp hlast)
        rw [inked_append_right]
        exact hopened j (by omega)
    · rwa [inked_append_right]

/-- The runs of a text are those that begin in its front part, and then those of the rest. -/
theorem AreRuns.append (hcut : ∀ i, i + 1 = front.length → Inked front i → ¬Inked back 0) (own : List (Nat × Nat))
    (hsorted : own.Pairwise fun a b => a.1 < b.1)
    (hown : ∀ start stop, (start, stop) ∈ own ↔ IsRun (front ++ back) start stop ∧ start < front.length)
    {runs : List (List Char)} (h : AreRuns back runs) :
    AreRuns (front ++ back) (own.map (fun (start, stop) => (front ++ back).extract start stop) ++ runs) := by
  obtain ⟨spans, hspans, hruns, rfl⟩ := h
  refine ⟨own ++ spans.map fun (start, stop) => (front.length + start, front.length + stop), ?_, ?_, ?_⟩
  · refine List.pairwise_append.mpr ⟨hsorted, ?_, ?_⟩
    · exact List.pairwise_map.mpr (hspans.imp fun h => Nat.add_lt_add_left h _)
    · rintro ⟨start, stop⟩ ha b hb
      obtain ⟨span, -, rfl⟩ := List.mem_map.mp hb
      exact Nat.lt_of_lt_of_le ((hown start stop).mp ha).2 (Nat.le_add_right _ _)
  · intro start stop
    rw [List.mem_append, List.mem_map, hown]
    constructor
    · rintro (h | ⟨⟨start', stop'⟩, hm, he⟩)
      · exact h.1
      · cases he
        exact (isRun_append hcut start' stop').mpr ((hruns start' stop').mp hm)
    · intro h
      by_cases hlt : start < front.length
      · exact Or.inl ⟨h, hlt⟩
      · have := h.start_lt
        obtain ⟨start', rfl⟩ := Nat.exists_eq_add_of_le (Nat.not_lt.mp hlt)
        obtain ⟨stop', rfl⟩ := Nat.exists_eq_add_of_le (show front.length ≤ stop by omega)
        exact Or.inr ⟨(start', stop'), (hruns start' stop').mpr ((isRun_append hcut start' stop').mp h), rfl⟩
  · rw [List.map_append, List.map_map]
    congr 1
    refine List.map_congr_left fun span _ => ?_
    simp only [Function.comp, List.extract_eq_take_drop, List.drop_length_add_append, Nat.add_sub_add_left]

end Append

/-- A blank at the front of a text is in no run. -/
theorem AreRuns.cons {c : Char} (hc : isBlank c = true) {rest : List Char} {runs : List (List Char)}
    (h : AreRuns rest runs) : AreRuns (c :: rest) runs := by
  rw [← List.singleton_append]
  refine AreRuns.append ?_ [] List.Pairwise.nil (fun start stop => ?_) h
  · rintro i hi hinked
    obtain rfl : i = 0 := by simpa using hi
    exact absurd hinked (not_inked_cons hc [])
  · refine iff_of_false List.not_mem_nil fun ⟨hrun, hlt⟩ => ?_
    obtain rfl : start = 0 := by simpa using hlt
    exact not_inked_cons hc rest (hrun.inked 0 (Nat.le_refl 0) hrun.start_lt)

section Run

variable {run rest : List Char} (hne : run ≠ []) (hrun : ∀ c ∈ run, isBlank c = false)
  (hrest : ∀ c ∈ rest.head?, isBlank c = true)
include hne hrun hrest

/-- One run begins in the characters without a blank that a text begins with, and takes up all of them. -/
theorem isRun_front (start stop : Nat) :
    IsRun (run ++ rest) start stop ∧ start < run.length ↔ start = 0 ∧ stop = run.length := by
  have hinked : ∀ i, i < run.length → Inked (run ++ rest) i := fun i hi =>
    (inked_append_left rest hi).mpr (inked_of_no_blank hrun hi)
  have hend : ¬Inked (run ++ rest) run.length := by
    rw [← Nat.add_zero run.length, inked_append_right]
    exact not_inked_front hrest
  constructor
  · rintro ⟨h, hlt⟩
    have hstart : start = 0 :=
      Classical.byContradiction fun hne => h.opened (start - 1) (by omega) (hinked _ (by omega))
    have hge : ¬stop < run.length := fun hlt => h.closed (hinked stop hlt)
    have hle : ¬run.length < stop := fun hlt' => hend (h.inked _ (by omega) hlt')
    omega
  · rintro ⟨rfl, rfl⟩
    have hpos := List.length_pos_iff.mpr hne
    exact ⟨⟨hpos, fun i _ => hinked i, by omega, hend⟩, hpos⟩

/-- A run at the front of a text is the first of its runs. -/
theorem AreRuns.run_append {runs : List (List Char)} (h : AreRuns rest runs) :
    AreRuns (run ++ rest) (run :: runs) := by
  have hown : (run ++ rest).extract 0 run.length = run := by
    rw [List.extract_eq_take_drop, List.drop_zero, Nat.sub_zero, List.take_left]
  have hspan : ∀ start stop, (start, stop) ∈ [(0, run.length)] ↔
      IsRun (run ++ rest) start stop ∧ start < run.length := by
    intro start stop
    rw [List.mem_singleton, Prod.mk.injEq, isRun_front hne hrun hrest]
  have hruns := AreRuns.append (fun _ _ _ => not_inked_front hrest) _ (List.pairwise_singleton _ _) hspan h
  simpa only [List.map_singleton, List.singleton_append, hown] using hruns

end Run

theorem areRuns_nil : AreRuns [] [] := by
  refine ⟨[], List.Pairwise.nil, fun start stop => ?_, rfl⟩
  refine iff_of_false List.not_mem_nil fun h => ?_
  exact not_inked_nil _ (h.inked start (Nat.le_refl _) h.start_lt)

/-! ## Words -/

/-- The pieces between blanks that are not empty. -/
def runsOf (text : List Char) : List (List Char) := (piecesBetweenBlanks text).filter (· ≠ [])

theorem piecesBetweenBlanks_ne_nil (text : List Char) : piecesBetweenBlanks text ≠ [] := by
  cases text with
  | nil => exact List.cons_ne_nil _ _
  | cons c rest =>
    rw [piecesBetweenBlanks]
    split
    · exact List.cons_ne_nil _ _
    · split <;> exact List.cons_ne_nil _ _

theorem piecesBetweenBlanks_append (front : List Char) {c : Char} (hc : isBlank c = true) (back : List Char) :
    piecesBetweenBlanks (front ++ c :: back) = piecesBetweenBlanks front ++ piecesBetweenBlanks back := by
  induction front with
  | nil =>
    show piecesBetweenBlanks (c :: back) = [] :: piecesBetweenBlanks back
    rw [piecesBetweenBlanks, if_pos hc]
  | cons first front ih =>
    rw [List.cons_append, piecesBetweenBlanks, piecesBetweenBlanks, ih]
    split
    · rfl
    · obtain ⟨piece, pieces, hp⟩ := List.exists_cons_of_ne_nil (piecesBetweenBlanks_ne_nil front)
      rw [hp]
      rfl

theorem piecesBetweenBlanks_of_no_blank {text : List Char} (h : ∀ c ∈ text, isBlank c = false) :
    piecesBetweenBlanks text = [text] := by
  induction text with
  | nil => rfl
  | cons c rest ih =>
    have hc : ¬isBlank c = true := Bool.eq_false_iff.mp (h c List.mem_cons_self)
    rw [piecesBetweenBlanks, if_neg hc, ih fun d hd => h d (List.mem_cons_of_mem c hd)]

/-- A blank parts the words in front of it from those behind it. -/
theorem runsOf_append (front : List Char) {c : Char} (hc : isBlank c = true) (back : List Char) :
    runsOf (front ++ c :: back) = runsOf front ++ runsOf back := by
  rw [runsOf, piecesBetweenBlanks_append front hc, List.filter_append]
  rfl

theorem runsOf_cons {c : Char} (hc : isBlank c = true) (rest : List Char) : runsOf (c :: rest) = runsOf rest :=
  runsOf_append [] hc rest

theorem runsOf_run {run : List Char} (hne : run ≠ []) (h : ∀ c ∈ run, isBlank c = false) : runsOf run = [run] := by
  rw [runsOf, piecesBetweenBlanks_of_no_blank h]
  exact List.filter_cons_of_pos (decide_eq_true hne)

/-- The words of a text that begins with a run. -/
theorem runsOf_run_append {run : List Char} (hne : run ≠ []) (h : ∀ c ∈ run, isBlank c = false) {rest : List Char}
    (hrest : ∀ c ∈ rest.head?, isBlank c = true) : runsOf (run ++ rest) = run :: runsOf rest := by
  cases rest with
  | nil => rw [List.append_nil, runsOf_run hne h]; rfl
  | cons c rest =>
    have hc : isBlank c = true := hrest c rfl
    rw [runsOf_append run hc, runsOf_run hne h, runsOf_cons hc]
    rfl

/-- A text begins with a blank or with a run, unless it is empty: induction over what stands behind. -/
@[elab_as_elim]
theorem run_induction {motive : List Char → Prop} (nil : motive [])
    (blank : ∀ c rest, isBlank c = true → motive rest → motive (c :: rest))
    (run : ∀ run rest, run ≠ [] → (∀ c ∈ run, isBlank c = false) → (∀ c ∈ rest.head?, isBlank c = true) →
      motive rest → motive (run ++ rest)) (text : List Char) : motive text := by
  induction hn : text.length using Nat.strongRecOn generalizing text with
  | ind n ih =>
    cases text with
    | nil => exact nil
    | cons c rest =>
      by_cases hc : isBlank c = true
      · exact blank c rest hc (ih rest.length (by simp [← hn]) rest rfl)
      · have hne : (c :: rest).takeWhile (!isBlank ·) ≠ [] := by
          rw [List.takeWhile_cons_of_pos (by simpa using hc)]
          exact List.cons_ne_nil _ _
        have hpos := List.length_pos_iff.mpr hne
        have hsplit : (c :: rest).takeWhile (!isBlank ·) ++ (c :: rest).dropWhile (!isBlank ·) = c :: rest :=
          List.takeWhile_append_dropWhile
        rw [← hsplit, List.length_append] at hn
        rw [← hsplit]
        refine run _ _ hne (fun d hd => ?_) (fun d hd => ?_) (ih _ (by omega) _ rfl)
        · simpa using List.all_eq_true.mp List.all_takeWhile d hd
        · have := List.head?_dropWhile_not (fun d => !isBlank d) (c :: rest)
          rw [hd] at this
          simpa using this

theorem mem_runsOf {text run : List Char} (h : run ∈ runsOf text) : run ≠ [] ∧ ∀ c ∈ run, isBlank c = false := by
  induction text using run_induction with
  | nil => cases h
  | blank c rest hc ih => exact ih (by rwa [runsOf_cons hc] at h)
  | run first rest hne hfirst hrest ih =>
    rw [runsOf_run_append hne hfirst hrest] at h
    rcases List.mem_cons.mp h with rfl | h
    · exact ⟨hne, hfirst⟩
    · exact ih h

theorem areRuns_runsOf (text : List Char) : AreRuns text (runsOf text) := by
  induction text using run_induction with
  | nil => exact areRuns_nil
  | blank c rest hc ih =>
    rw [runsOf_cons hc]
    exact ih.cons hc
  | run run rest hne hrun hrest ih =>
    rw [runsOf_run_append hne hrun hrest]
    exact ih.run_append hne hrun hrest

theorem words_eq (text : String) : words text = (runsOf text.toList).map String.ofList := rfl

theorem map_toList_words (text : String) : (words text).map String.toList = runsOf text.toList := by
  have hid : String.toList ∘ String.ofList = id := funext fun _ => String.toList_ofList
  rw [words_eq, List.map_map, hid, List.map_id]

/-- The words of a text are its runs, in order. -/
theorem words_areRuns (text : String) : AreRuns text.toList ((words text).map String.toList) := by
  rw [map_toList_words]
  exact areRuns_runsOf _

/-! ## Texts without a word -/

theorem runsOf_eq_nil_iff {text : List Char} : runsOf text = [] ↔ ∀ c ∈ text, isBlank c = true := by
  induction text using run_induction with
  | nil => simp [runsOf, piecesBetweenBlanks]
  | blank c rest hc ih =>
    rw [runsOf_cons hc, ih, List.forall_mem_cons, and_iff_right hc]
  | run run rest hne hrun hrest ih =>
    rw [runsOf_run_append hne hrun hrest]
    refine iff_of_false (List.cons_ne_nil _ _) fun h => ?_
    obtain ⟨c, run, rfl⟩ := List.exists_cons_of_ne_nil hne
    exact absurd (h c List.mem_cons_self) (Bool.eq_false_iff.mp (hrun c List.mem_cons_self))

/-- A text with something else in it than blanks. -/
def HasWord (text : String) : Prop := ∃ c ∈ text.toList, isBlank c = false

theorem not_hasWord_iff {text : String} : ¬HasWord text ↔ ∀ c ∈ text.toList, isBlank c = true := by
  simp [HasWord]

theorem words_eq_nil_iff {text : String} : words text = [] ↔ ¬HasWord text := by
  rw [words_eq, List.map_eq_nil_iff, runsOf_eq_nil_iff, not_hasWord_iff]

/-- Nothing is left of a text without a word when blanks are taken off its ends, and only of such a text. -/
theorem trim_isEmpty_iff {text : String} : (trim text).isEmpty = true ↔ ¬HasWord text := by
  rw [String.isEmpty_iff, trim, ← String.toList_inj, String.toList_ofList, not_hasWord_iff]
  simp only [String.toList_empty, List.reverse_eq_nil_iff, List.dropWhile_eq_nil_iff, List.mem_reverse]
  constructor
  · intro h c hc
    rw [← List.takeWhile_append_dropWhile (p := isBlank) (l := text.toList)] at hc
    rcases List.mem_append.mp hc with hc | hc
    · exact List.all_eq_true.mp List.all_takeWhile c hc
    · exact h c hc
  · intro h c hc
    exact h c ((List.dropWhile_sublist isBlank).mem hc)

/-! ## Words with blanks between them -/

theorem runsOf_intercalate {runs : List (List Char)} (h : ∀ run ∈ runs, run ≠ [] ∧ ∀ c ∈ run, isBlank c = false) :
    runsOf ([' '].intercalate runs) = runs := by
  induction runs with
  | nil => rfl
  | cons run runs ih =>
    obtain ⟨hne, hrun⟩ := h run List.mem_cons_self
    have hruns := ih fun run' hm => h run' (List.mem_cons_of_mem run hm)
    cases runs with
    | nil => simpa [List.intercalate] using runsOf_run hne hrun
    | cons second runs =>
      have hspaced : [' '].intercalate (run :: second :: runs) = run ++ ' ' :: [' '].intercalate (second :: runs) := by
        simp [List.intercalate]
      rw [hspaced, runsOf_append run (by decide), runsOf_run hne hrun, hruns]
      rfl

/-- Words that are written with single blanks between them are read as the same words. -/
theorem words_intercalate (text : String) : words (" ".intercalate (words text)) = words text := by
  have hspace : " ".toList = [' '] := rfl
  rw [words_eq, String.toList_intercalate, map_toList_words, hspace, runsOf_intercalate fun run => mem_runsOf, words_eq]

/-- Blanks of several kinds at the ends of a text and between its words. -/
example : words "\t cat\u00a0 -n\u3000" = ["cat", "-n"] := by decide +kernel

end SourceJar.Text
