import SourceJar.Proofs.DraftCalls

/-!
Calls with a path that was asked for before.

A draft keeps the paths that it was asked for, not those that it has written. So a call is passed over exactly if an
earlier one had its path, whatever came of that one: the first call with a path decides what becomes of the path
(`FirstAsked`). It is accepted, or it is refused because a call with another path has taken its final name, and then the
path is never written, however often it is asked for again.

- `answer_cases`: the answer to a call, from the calls before it.
- `passed_over_iff`: what is behind a call that is passed over.
- `retry_passed_over`: a path that was never written.
-/

namespace SourceJar.Archive.Draft

/-! ## One call of a row -/

theorem performAll_take (calls : List Call) (d : Draft) (i : Nat) :
    (performAll (calls.take i) d).2 = (performAll calls d).2.take i := by
  induction calls generalizing d i with
  | nil => simp [performAll]
  | cons call rest ih =>
    cases i with
    | zero => rfl
    | succ i => exact congrArg ((call.perform d).2 :: ·) (ih _ i)

/-- A call of a row is made to the draft that the calls before it leave. -/
theorem getElem?_performAll (calls : List Call) (d : Draft) (i : Nat) :
    (performAll calls d).2[i]? =
      calls[i]?.map fun call => (call.perform (performAll (calls.take i) d).1).2 := by
  induction calls generalizing d i with
  | nil => simp [performAll]
  | cons call rest ih =>
    cases i with
    | zero => rfl
    | succ i => exact ih _ i

theorem exists_mem_take_iff {α : Type} {items : List α} {i : Nat} {p : α → Prop} :
    (∃ item ∈ items.take i, p item) ↔ ∃ j < i, ∃ item, items[j]? = some item ∧ p item := by
  constructor
  · rintro ⟨item, hm, hp⟩
    obtain ⟨j, hj⟩ := List.mem_iff_getElem?.mp hm
    rw [List.getElem?_take] at hj
    split at hj
    · exact ⟨j, ‹_›, item, hj, hp⟩
    · cases hj
  · rintro ⟨j, hlt, item, hj, hp⟩
    exact ⟨item, List.mem_of_getElem? ((List.getElem?_take_of_lt hlt).trans hj), hp⟩

/-- What a call of a row on a fresh draft is answered: it is passed over if its path was asked for before, refused if
its final name was taken, and accepted otherwise. -/
theorem answer_cases {calls : List Call} {i : Nat} {call : Call} (hi : calls[i]? = some call) :
    let answers := (performAll calls {}).2
    let asked := ∃ j < i, ∃ other, calls[j]? = some other ∧ other.path = call.path
    let taken := ∃ j < i, ∃ other, calls[j]? = some other ∧ answers[j]? = some (.ok true) ∧
      other.entry.name = call.entry.name
    (asked ∧ answers[i]? = some (.ok false)) ∨
    (¬asked ∧ taken ∧ answers[i]? = some (.error (.archive (.duplicateName call.entry.name)))) ∨
    (¬asked ∧ ¬taken ∧ answers[i]? = some (.ok true)) := by
  intro answers asked taken
  have hstep : InStep (calls.take i) (answers.take i) (performAll (calls.take i) {}).1 := by
    have h := inStep_fresh.performAll (calls.take i)
    rwa [List.nil_append, List.nil_append, performAll_take] at h
  have hanswer : answers[i]? = some (call.perform (performAll (calls.take i) {}).1).2 := by
    rw [getElem?_performAll, hi, Option.map_some]
  have hasked : call.path ∈ (performAll (calls.take i) {}).1.seen ↔ asked := by
    rw [hstep.seen]
    exact exists_mem_take_iff
  have htaken : call.entry.name ∈ (performAll (calls.take i) {}).1.entries.map DraftEntry.name ↔ taken := by
    rw [List.mem_map, hstep.entries]
    constructor
    · rintro ⟨entry, hm, hname⟩
      obtain ⟨j, other, hj, ha, rfl⟩ := mem_accepted_iff.mp hm
      rw [List.getElem?_take] at hj ha
      split at hj
      · rw [if_pos ‹_›] at ha
        exact ⟨j, ‹_›, other, hj, ha, hname⟩
      · cases hj
    · rintro ⟨j, hlt, other, hj, ha, hname⟩
      refine ⟨other.entry, mem_accepted_iff.mpr ⟨j, other, ?_, ?_, rfl⟩, hname⟩
      · rwa [List.getElem?_take_of_lt hlt]
      · rwa [List.getElem?_take_of_lt hlt]
  rw [hanswer]
  rcases perform_cases call (performAll (calls.take i) {}).1 with ⟨hs, e⟩ | ⟨hs, ht, e⟩ | ⟨hs, ht, e⟩ <;> rw [e]
  · exact Or.inl ⟨hasked.mp hs, rfl⟩
  · exact Or.inr (Or.inl ⟨mt hasked.mpr hs, htaken.mp ht, rfl⟩)
  · exact Or.inr (Or.inr ⟨mt hasked.mpr hs, mt htaken.mpr ht, rfl⟩)

/-! ## The first call with a path -/

/-- The `j`-th call is the first one with its path. It was accepted, or refused because a call with another path had
taken its final name, and every later call with the path was passed over. -/
structure FirstAsked (calls : List Call) (answers : List (Except Failure Bool)) (j : Nat) (first : Call) : Prop where
  call : calls[j]? = some first
  earliest : ∀ k < j, ∀ other, calls[k]? = some other → other.path ≠ first.path
  answer : answers[j]? = some (.ok true) ∨
    answers[j]? = some (.error (.archive (.duplicateName first.entry.name))) ∧
      ∃ k < j, ∃ other, calls[k]? = some other ∧ other.path ≠ first.path ∧
        other.entry.name = first.entry.name ∧ answers[k]? = some (.ok true)
  repeated : ∀ k, j < k → ∀ other, calls[k]? = some other → other.path = first.path → answers[k]? = some (.ok false)

theorem answer_repeated {calls : List Call} {j k : Nat} {call other : Call} (hjk : j < k) (hj : calls[j]? = some call)
    (hk : calls[k]? = some other) (hpath : other.path = call.path) :
    (performAll calls {}).2[k]? = some (.ok false) := by
  have hasked : ∃ j < k, ∃ earlier, calls[j]? = some earlier ∧ earlier.path = other.path :=
    ⟨j, hjk, call, hj, hpath.symm⟩
  rcases answer_cases hk with ⟨-, ha⟩ | ⟨hno, -⟩ | ⟨hno, -⟩
  · exact ha
  · exact absurd hasked hno
  · exact absurd hasked hno

/-- Every path that was asked for has a first call. -/
theorem exists_firstAsked {calls : List Call} {i : Nat} {call : Call} (hi : calls[i]? = some call) :
    ∃ j ≤ i, ∃ first, first.path = call.path ∧ FirstAsked calls (performAll calls {}).2 j first := by
  induction i using Nat.strongRecOn generalizing call with
  | ind i ih =>
    by_cases hasked : ∃ j < i, ∃ other, calls[j]? = some other ∧ other.path = call.path
    · obtain ⟨j, hlt, other, hj, hpath⟩ := hasked
      obtain ⟨k, hk, first, hfirst, h⟩ := ih j hlt hj
      exact ⟨k, by omega, first, hfirst.trans hpath, h⟩
    · have hearliest : ∀ k < i, ∀ other, calls[k]? = some other → other.path ≠ call.path :=
        fun k hk other ho e => hasked ⟨k, hk, other, ho, e⟩
      refine ⟨i, Nat.le_refl i, call, rfl, hi, hearliest, ?_, fun k hk other => answer_repeated hk hi⟩
      rcases answer_cases hi with ⟨h, -⟩ | ⟨-, ⟨k, hk, other, ho, ha, hname⟩, h⟩ | ⟨-, -, h⟩
      · exact absurd h hasked
      · exact Or.inr ⟨h, k, hk, other, ho, hearliest k hk other ho, hname, ha⟩
      · exact Or.inl h

/-- In a row of calls on a fresh draft, a call is passed over exactly if its path was asked for before. The first call
with the path was then accepted or, if a call with another path had taken its final name, refused; and of all calls with
the path no other one is accepted. -/
theorem passed_over_iff {calls : List Call} {i : Nat} {call : Call} (hi : calls[i]? = some call) :
    let answers := (performAll calls {}).2
    (answers[i]? = some (.ok false) ↔ ∃ j < i, ∃ other, calls[j]? = some other ∧ other.path = call.path) ∧
      (answers[i]? = some (.ok false) →
        ∃ j < i, ∃ first, first.path = call.path ∧ FirstAsked calls answers j first) := by
  intro answers
  have hiff : answers[i]? = some (.ok false) ↔ ∃ j < i, ∃ other, calls[j]? = some other ∧ other.path = call.path := by
    rcases answer_cases hi with ⟨hasked, ha⟩ | ⟨hasked, -, ha⟩ | ⟨hasked, -, ha⟩
    · exact iff_of_true ha hasked
    · exact iff_of_false (by simp [answers, ha]) hasked
    · exact iff_of_false (by simp [answers, ha]) hasked
  refine ⟨hiff, fun hfalse => ?_⟩
  obtain ⟨j, hlt, other, hj, hpath⟩ := hiff.mp hfalse
  obtain ⟨k, hk, first, hfirst, h⟩ := exists_firstAsked hj
  exact ⟨k, by omega, first, hfirst.trans hpath, h⟩

/-- A file that is asked for once more, after a directory of its final name. -/
theorem refused_file_asked_again :
    let calls : List Call := [.directory "a", .file "b" "", .file "a/" "x", .file "b" "y", .file "a/" "x"]
    let answers := (performAll calls {}).2
    calls[4]? = some (.file "a/" "x") ∧ answers[4]? = some (.ok false) ∧
      ∃ j < 4, ∃ first : Call, first.path = "a/" ∧ FirstAsked calls answers j first := by
  intro calls answers
  have hcall : calls[4]? = some (.file "a/" "x") := rfl
  obtain ⟨hiff, hfirst⟩ := passed_over_iff hcall
  have hfalse : answers[4]? = some (.ok false) := hiff.mpr ⟨2, by decide, .file "a/" "x", rfl, rfl⟩
  exact ⟨hcall, hfalse, hfirst hfalse⟩

/-- A call may be passed over though no earlier one with its path was accepted: the second of these is refused, and a
retry is dropped. -/
theorem retry_passed_over :
    ¬∀ (calls : List Call) (i : Nat) (call : Call), calls[i]? = some call →
      (performAll calls {}).2[i]? = some (.ok false) →
        ∃ j < i, ∃ other, calls[j]? = some other ∧ other.path = call.path ∧
          (performAll calls {}).2[j]? = some (.ok true) := by
  intro h
  have hanswers : (performAll [.directory "a", .directory "a/", .directory "a/"] {}).2 =
      [.ok true, .error (.archive (.duplicateName "a/")), .ok false] := rfl
  obtain ⟨j, hj, other, hcall, hpath, hanswer⟩ :=
    h [.directory "a", .directory "a/", .directory "a/"] 2 (.directory "a/") rfl (by rw [hanswers]; rfl)
  rw [hanswers] at hanswer
  have hcases : j = 0 ∨ j = 1 := by omega
  rcases hcases with rfl | rfl
  · cases hcall
    exact absurd hpath (by decide)
  · cases hanswer

end SourceJar.Archive.Draft
