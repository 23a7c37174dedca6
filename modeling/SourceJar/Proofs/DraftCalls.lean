import Mathlib.Algebra.GroupWithZero.Nat
import SourceJar.Proofs.Drafts

/-!
Rows of calls to a draft.

Whatever is asked of a draft, with whatever paths, its parts stay in step (`InStep`): the entries are what the accepted
calls asked for, in the order of the calls, under names that are all different; the summary counts them; and the paths
that were seen are those of all calls, also of the refused ones.

- `perform_cases`: the three things that one call can do.
- `InStep.perform`, `InStep.performAll`: one call, and a row of them.
- `performAll_ok`: with a slash at the end of every directory's path no call fails.
- `performAll_fresh`: a draft after any calls.
-/

namespace SourceJar.Archive

/-- The summary with one more entry. -/
def WriteSummary.counting (s : WriteSummary) (entry : DraftEntry) : WriteSummary :=
  if entry.isDirectory then { s with directories := s.directories + 1 }
  else { s with files := s.files + 1, bytesWritten := s.bytesWritten + Utf8.size entry.text }

namespace Draft

/-! ## Calls -/

/-- A call to a draft. -/
inductive Call where
  | directory (path : String)
  | file (path text : String)
  deriving DecidableEq, Repr

namespace Call

def path : Call → String
  | .directory path => path
  | .file path _ => path

/-- The entry that a call asks for, under its final name. -/
def entry : Call → DraftEntry
  | .directory path => ⟨directoryName path, true, ""⟩
  | .file path text => ⟨path, false, text⟩

/-- Whether the path is that of a directory in its final form, if the call is for a directory. -/
def Slashed : Call → Prop
  | .directory path => EntryName.isDirectory path = true
  | .file .. => True

/-- Makes a call. -/
def perform : Call → Draft → Draft × Except Failure Bool
  | .directory path, d => d.addDirectory path
  | .file path text, d => d.addFile path text

end Call

/-- Makes calls one after another, and keeps the answers. -/
def performAll : List Call → Draft → Draft × List (Except Failure Bool)
  | [], d => (d, [])
  | call :: rest, d =>
    let (d, answer) := call.perform d
    let (d, answers) := performAll rest d
    (d, answer :: answers)

/-- What was asked for by the calls that were accepted. -/
def accepted : List Call → List (Except Failure Bool) → List DraftEntry
  | call :: calls, .ok true :: answers => call.entry :: accepted calls answers
  | _ :: calls, _ :: answers => accepted calls answers
  | _, _ => []

/-! ## One call -/

/-- Both kinds of calls do the same with their path and their entry. -/
theorem perform_eq (call : Call) (d : Draft) :
    call.perform d = if d.contains call.path then (d, .ok false)
      else append { d with seen := call.path :: d.seen } call.entry (d.summary.counting call.entry) := by
  cases call <;> rfl

/-- What a call can do: pass over a path that was seen, refuse a name that is taken, or add its entry. -/
theorem perform_cases (call : Call) (d : Draft) :
    (call.path ∈ d.seen ∧ call.perform d = (d, .ok false)) ∨
    (call.path ∉ d.seen ∧ call.entry.name ∈ d.entries.map DraftEntry.name ∧ call.perform d =
      ({ d with seen := call.path :: d.seen }, .error (.archive (.duplicateName call.entry.name)))) ∨
    (call.path ∉ d.seen ∧ call.entry.name ∉ d.entries.map DraftEntry.name ∧ call.perform d =
      (⟨call.path :: d.seen, d.entries ++ [call.entry], d.summary.counting call.entry⟩, .ok true)) := by
  have htaken : (d.entries.any fun other => other.name == call.entry.name) = true ↔
      call.entry.name ∈ d.entries.map DraftEntry.name := by
    simp only [List.any_eq_true, beq_iff_eq, List.mem_map]
  have hseen : d.contains call.path = true ↔ call.path ∈ d.seen := List.contains_iff_mem
  by_cases hs : call.path ∈ d.seen
  · exact Or.inl ⟨hs, by rw [perform_eq, if_pos (hseen.mpr hs)]⟩
  refine Or.inr ?_
  rw [perform_eq, if_neg (mt hseen.mp hs), append]
  by_cases ht : call.entry.name ∈ d.entries.map DraftEntry.name
  · exact Or.inl ⟨hs, ht, if_pos (htaken.mpr ht)⟩
  · exact Or.inr ⟨hs, ht, if_neg (mt htaken.mp ht)⟩

/-- A call that is not accepted adds nothing and counts nothing. -/
theorem perform_refused {call : Call} {d : Draft} (h : (call.perform d).2 ≠ .ok true) :
    (call.perform d).1.entries = d.entries ∧ (call.perform d).1.summary = d.summary := by
  rcases perform_cases call d with ⟨-, e⟩ | ⟨-, -, e⟩ | ⟨-, -, e⟩
  · rw [e]
    exact ⟨rfl, rfl⟩
  · rw [e]
    exact ⟨rfl, rfl⟩
  · rw [e] at h
    exact absurd rfl h

/-! ## Rows of calls -/

theorem accepted_append {front : List Call} {answers : List (Except Failure Bool)} (h : answers.length = front.length)
    (back : List Call) (answers' : List (Except Failure Bool)) :
    accepted (front ++ back) (answers ++ answers') = accepted front answers ++ accepted back answers' := by
  induction front generalizing answers with
  | nil =>
    rw [List.length_eq_zero_iff.mp h]
    rfl
  | cons call rest ih =>
    cases answers with
    | nil => cases h
    | cons answer answers =>
      have hr := ih (Nat.succ.inj h)
      rcases answer with e | _ | _
      · exact hr
      · exact hr
      · exact congrArg (call.entry :: ·) hr

/-- How a draft stands after calls with the given answers. -/
structure InStep (calls : List Call) (answers : List (Except Failure Bool)) (d : Draft) : Prop where
  answered : answers.length = calls.length
  names : (d.entries.map DraftEntry.name).Nodup
  entries : d.entries = accepted calls answers
  summary : d.summary = d.entries.foldl WriteSummary.counting {}
  seen : ∀ path, path ∈ d.seen ↔ ∃ call ∈ calls, call.path = path

theorem inStep_fresh : InStep [] [] {} where
  answered := rfl
  names := List.nodup_nil
  entries := rfl
  summary := rfl
  seen path := by simp

variable {calls : List Call} {answers : List (Except Failure Bool)} {d : Draft}

/-- One more call. -/
theorem InStep.perform (h : InStep calls answers d) (call : Call) :
    InStep (calls ++ [call]) (answers ++ [(call.perform d).2]) (call.perform d).1 := by
  have hanswered : ∀ answer : Except Failure Bool, (answers ++ [answer]).length = (calls ++ [call]).length := by
    intro answer
    simp [h.answered]
  have hentries : ∀ answer, accepted (calls ++ [call]) (answers ++ [answer]) = d.entries ++ accepted [call] [answer] := by
    intro answer
    rw [accepted_append h.answered, h.entries]
  have hseen : ∀ path, path ∈ call.path :: d.seen ↔ ∃ other ∈ calls ++ [call], other.path = path := by
    intro path
    rw [List.mem_cons, h.seen]
    constructor
    · rintro (rfl | ⟨other, hm, e⟩)
      · exact ⟨call, by simp, rfl⟩
      · exact ⟨other, List.mem_append_left _ hm, e⟩
    · rintro ⟨other, hm, rfl⟩
      rcases List.mem_append.mp hm with hm | hm
      · exact Or.inr ⟨other, hm, rfl⟩
      · exact Or.inl (congrArg Call.path (List.mem_singleton.mp hm))
  rcases perform_cases call d with ⟨hs, e⟩ | ⟨-, -, e⟩ | ⟨-, hfree, e⟩ <;> rw [e]
  · refine ⟨hanswered _, h.names, ?_, h.summary, fun path => ?_⟩
    · rw [hentries]
      exact (List.append_nil _).symm
    · rw [← hseen, List.mem_cons]
      exact ⟨Or.inr, fun hp => hp.elim (fun e => e ▸ hs) id⟩
  · refine ⟨hanswered _, h.names, ?_, h.summary, hseen⟩
    rw [hentries]
    exact (List.append_nil _).symm
  · refine ⟨hanswered _, ?_, ?_, ?_, hseen⟩
    · rw [List.map_append, List.map_singleton]
      exact List.nodup_append.mpr ⟨h.names, by simp, fun a ha b hb e =>
        hfree (List.mem_singleton.mp hb ▸ e ▸ ha)⟩
    · rw [hentries]
      rfl
    · rw [List.foldl_append, ← h.summary]
      rfl

/-- A row of calls. -/
theorem InStep.performAll (h : InStep calls answers d) (row : List Call) :
    InStep (calls ++ row) (answers ++ (performAll row d).2) (performAll row d).1 := by
  induction row generalizing calls answers d with
  | nil => simpa [Draft.performAll] using h
  | cons call rest ih => simpa [Draft.performAll] using ih (h.perform call)

/-- With a slash at the end of every directory's path no call fails. -/
theorem performAll_ok (hd : d.Named) (hc : ∀ call ∈ calls, call.Slashed) :
    ∀ answer ∈ (performAll calls d).2, ∃ new, answer = .ok new := by
  induction calls generalizing d with
  | nil => simp [performAll]
  | cons call rest ih =>
    obtain ⟨hfirst, hrest⟩ := List.forall_mem_cons.mp hc
    obtain ⟨d', new, row, e, ht⟩ : ∃ d' new row, call.perform d = (d', .ok new) ∧ Takes d row d' := by
      cases call with
      | directory path =>
        obtain ⟨d', new, e, ht⟩ := addDirectory_takes hd hfirst
        exact ⟨d', new, _, e, ht⟩
      | file path text =>
        obtain ⟨d', new, e, ht⟩ := addFile_takes hd path text
        exact ⟨d', new, _, e, ht⟩
    rw [performAll, e]
    exact List.forall_mem_cons.mpr ⟨⟨new, rfl⟩, ih ht.named hrest⟩

/-! ## What the parts say -/

/-- The accepted entries are those of the calls that were answered with `true`. -/
theorem mem_accepted_iff {entry : DraftEntry} : entry ∈ accepted calls answers ↔
    ∃ (i : Nat) (call : Call), calls[i]? = some call ∧ answers[i]? = some (.ok true) ∧ entry = call.entry := by
  induction calls generalizing answers with
  | nil => cases answers <;> simp [accepted]
  | cons call rest ih =>
    cases answers with
    | nil => simp [accepted]
    | cons answer answers =>
      have hsplit : (∃ (i : Nat) (other : Call), (call :: rest)[i]? = some other ∧
          (answer :: answers)[i]? = some (.ok true) ∧ entry = other.entry) ↔
            (answer = .ok true ∧ entry = call.entry) ∨ entry ∈ accepted rest answers := by
        rw [ih]
        constructor
        · rintro ⟨_ | i, other, hc, ha, he⟩
          · cases hc
            exact Or.inl ⟨Option.some.inj ha, he⟩
          · exact Or.inr ⟨i, other, hc, ha, he⟩
        · rintro (⟨rfl, he⟩ | ⟨i, other, hc, ha, he⟩)
          · exact ⟨0, call, rfl, rfl, he⟩
          · exact ⟨i + 1, other, hc, ha, he⟩
      rw [hsplit]
      rcases answer with e | _ | _ <;> simp [accepted]

theorem mem_accepted {entry : DraftEntry} (h : entry ∈ accepted calls answers) :
    ∃ call ∈ calls, entry = call.entry := by
  obtain ⟨i, call, hc, -, he⟩ := mem_accepted_iff.mp h
  exact ⟨call, List.mem_of_getElem? hc, he⟩

/-- The summary counts directories, files and the bytes of the contents. -/
theorem foldl_counting (entries : List DraftEntry) (s : WriteSummary) (hd : ∀ entry ∈ entries, entry.isDirectory = true →
    entry.text = "") : entries.foldl WriteSummary.counting s =
      ⟨s.directories + entries.countP (·.isDirectory), s.files + entries.countP (!·.isDirectory),
        s.bytesWritten + (entries.map fun entry => Utf8.size entry.text).sum⟩ := by
  induction entries generalizing s with
  | nil => rfl
  | cons entry rest ih =>
    obtain ⟨hfirst, hrest⟩ := List.forall_mem_cons.mp hd
    rw [List.foldl_cons, ih _ hrest]
    cases hkind : entry.isDirectory with
    | true =>
      have hsize : Utf8.size entry.text = 0 := by
        rw [hfirst hkind]
        rfl
      simp only [WriteSummary.counting, hkind, List.countP_cons, List.map_cons, List.sum_cons, hsize, if_true,
        Bool.not_true, Bool.false_eq_true, if_false, WriteSummary.mk.injEq]
      omega
    | false =>
      simp only [WriteSummary.counting, hkind, List.countP_cons, List.map_cons, List.sum_cons, if_true,
        Bool.not_false, Bool.false_eq_true, if_false, WriteSummary.mk.injEq]
      omega

theorem encode_eq_nil_iff {text : String} : Utf8.encode text = [] ↔ text = "" := by
  rw [Utf8.encode, List.flatMap_eq_nil_iff]
  constructor
  · intro h
    rcases hl : text.toList with _ | ⟨c, rest⟩
    · exact String.toList_eq_nil_iff.mp hl
    · have := h c (hl ▸ List.mem_cons_self)
      simp at this
  · rintro rfl
    simp

/-- The method that an entry is written with. -/
theorem packed_method (entry : DraftEntry) : (Zip.packed ⟨entry.name, Utf8.encode entry.text⟩).1 =
    if entry.text = "" then Zip.stored else Zip.deflated := by
  simp only [Zip.packed, encode_eq_nil_iff]
  split <;> rfl

/-- A draft after any calls. Its entries have different names and are those of the accepted calls, in order and each with
its own content, which is deflated unless there is none; the summary counts them; the paths that it contains are those of
the calls. A call that it does not accept changes neither entries nor summary, and no call fails if the paths of
directories end in slashes. -/
theorem performAll_fresh (calls : List Call) :
    let d := (performAll calls {}).1
    let answers := (performAll calls {}).2
    answers.length = calls.length ∧
    (d.entries.map DraftEntry.name).Nodup ∧
    d.entries = accepted calls answers ∧
    (∀ entry ∈ d.entries, (Zip.packed ⟨entry.name, Utf8.encode entry.text⟩).1 =
      if entry.isDirectory = true ∨ entry.text = "" then Zip.stored else Zip.deflated) ∧
    d.summary.directories = d.entries.countP (·.isDirectory) ∧
    d.summary.files = d.entries.countP (!·.isDirectory) ∧
    d.summary.bytesWritten = (d.entries.map fun entry => Utf8.size entry.text).sum ∧
    (∀ path, d.contains path = true ↔ ∃ call ∈ calls, call.path = path) ∧
    (∀ call : Call, (call.perform d).2 ≠ .ok true →
      (call.perform d).1.entries = d.entries ∧ (call.perform d).1.summary = d.summary) ∧
    ((∀ call ∈ calls, call.Slashed) → ∀ answer ∈ answers, ∃ new, answer = .ok new) := by
  intro d answers
  have h : InStep calls answers d := inStep_fresh.performAll calls
  have hdirectory : ∀ entry ∈ d.entries, entry.isDirectory = true → entry.text = "" := by
    intro entry hm hd
    obtain ⟨call, -, rfl⟩ := mem_accepted (h.entries ▸ hm)
    cases call with
    | directory path => rfl
    | file path text => cases hd
  have hsummary := h.summary.trans (foldl_counting d.entries {} hdirectory)
  refine ⟨h.answered, h.names, h.entries, fun entry hm => ?_, ?_, ?_, ?_, fun path => ?_, fun call => perform_refused,
    performAll_ok named_fresh⟩
  · rw [packed_method]
    by_cases ht : entry.text = ""
    · rw [if_pos ht, if_pos (Or.inr ht)]
    · rw [if_neg ht, if_neg (not_or.mpr ⟨mt (hdirectory entry hm) ht, ht⟩)]
  · simp [hsummary]
  · simp [hsummary]
  · simp [hsummary]
  · rw [← h.seen]
    exact List.contains_iff_mem

-- two paths of directories with one final name, and a path that is asked for again
example : (performAll [.directory "a", .directory "a/", .file "x" "one", .file "x" "two"] {}).2 =
    [.ok true, .error (.archive (.duplicateName "a/")), .ok true, .ok false] := by cbv

end Draft

end SourceJar.Archive
