/-!
Cutting sequences at a separator.

The functions work on lists, so they serve characters and bytes alike. `splitOn` keeps every piece,
empty ones included, and always returns at least one; joining the pieces with the separator gives
the sequence back.
-/

namespace SourceJar.Split

variable {α : Type} [DecidableEq α]

/-- The pieces of a sequence between the separators. -/
def splitOn (sep : α) : List α → List (List α)
  | [] => [[]]
  | x :: rest =>
    if x = sep then [] :: splitOn sep rest
    else
      match splitOn sep rest with
      | [] => [[x]]
      | piece :: pieces => (x :: piece) :: pieces

theorem splitOn_ne_nil (sep : α) (whole : List α) : splitOn sep whole ≠ [] := by
  cases whole with
  | nil => simp [splitOn]
  | cons x rest =>
    unfold splitOn
    split
    · simp
    · split <;> simp

/-- Joining the pieces gives the sequence back. -/
theorem intercalate_splitOn (sep : α) (whole : List α) :
    [sep].intercalate (splitOn sep whole) = whole := by
  induction whole with
  | nil => rfl
  | cons x rest ih =>
    obtain ⟨piece, pieces, h⟩ := List.exists_cons_of_ne_nil (splitOn_ne_nil sep rest)
    rw [h] at ih
    unfold splitOn
    split
    · rename_i hx
      rw [h, ← ih, hx]
      simp [List.intercalate, List.intersperse]
    · rw [h, ← ih]
      cases pieces <;> simp [List.intercalate, List.intersperse]

/-- No piece holds a separator. -/
theorem notMem_of_mem_splitOn {sep : α} {whole piece : List α} (h : piece ∈ splitOn sep whole) :
    sep ∉ piece := by
  induction whole generalizing piece with
  | nil => simp_all [splitOn]
  | cons x rest ih =>
    unfold splitOn at h
    split at h
    · rcases List.mem_cons.1 h with rfl | h
      · simp
      · exact ih h
    · rename_i hx
      obtain ⟨first, pieces, hs⟩ := List.exists_cons_of_ne_nil (splitOn_ne_nil sep rest)
      rw [hs] at h ih
      rcases List.mem_cons.1 h with rfl | h
      · simp [Ne.symm hx, ih List.mem_cons_self]
      · exact ih (List.mem_cons_of_mem _ h)

/-- The parts before and after the first separator. -/
def cutFirst? (sep : α) : List α → Option (List α × List α)
  | [] => none
  | x :: rest =>
    if x = sep then some ([], rest)
    else (cutFirst? sep rest).map fun (before, after) => (x :: before, after)

/-- A cut at the first separator has none before it. -/
theorem cutFirst?_eq_some_iff {sep : α} {whole before after : List α} :
    cutFirst? sep whole = some (before, after) ↔
      sep ∉ before ∧ whole = before ++ sep :: after := by
  induction whole generalizing before with
  | nil => simp [cutFirst?]
  | cons x rest ih =>
    unfold cutFirst?
    split
    · rename_i hx
      cases before <;> simp_all [eq_comm]
    · rename_i hx
      cases before with
      | nil => simp [hx]
      | cons y before => simp [ih, Prod.exists]; grind

/-- What follows the first separator is shorter than the whole. -/
theorem length_cutFirst? {sep : α} {whole before after : List α}
    (h : cutFirst? sep whole = some (before, after)) : after.length < whole.length := by
  rw [(cutFirst?_eq_some_iff.1 h).2]
  simp only [List.length_append, List.length_cons]
  omega

/-- The parts before and after the last separator. -/
def cutLast? (sep : α) : List α → Option (List α × List α)
  | [] => none
  | x :: rest =>
    match cutLast? sep rest with
    | some (before, after) => some (x :: before, after)
    | none => if x = sep then some ([], rest) else none

theorem cutLast?_eq_none_iff {sep : α} {whole : List α} :
    cutLast? sep whole = none ↔ sep ∉ whole := by
  induction whole with
  | nil => simp [cutLast?]
  | cons x rest ih =>
    unfold cutLast?
    split
    · rename_i h
      have : sep ∈ rest := by
        refine Classical.byContradiction fun hn => ?_
        simp [ih.2 hn] at h
      simp [this]
    · rename_i h
      have hrest := ih.1 h
      by_cases hx : x = sep
      · simp [hx]
      · simp [hx, hrest, Ne.symm hx]

/-- A cut at the last separator has none after it. -/
theorem cutLast?_eq_some_iff {sep : α} {whole before after : List α} :
    cutLast? sep whole = some (before, after) ↔
      sep ∉ after ∧ whole = before ++ sep :: after := by
  induction whole generalizing before with
  | nil => simp [cutLast?]
  | cons x rest ih =>
    unfold cutLast?
    split
    · rename_i b a h
      have hmem : sep ∈ rest := by
        refine Classical.byContradiction fun hn => ?_
        simp [cutLast?_eq_none_iff.2 hn] at h
      cases before with
      | nil => grind
      | cons y before =>
        have := @ih before
        simp_all
        grind
    · rename_i h
      have hnone := cutLast?_eq_none_iff.1 h
      cases before with
      | nil => by_cases hx : x = sep <;> grind
      | cons y before => by_cases hx : x = sep <;> grind

/-- The sequence without `start` in front, if it stands there. -/
def dropStart? : (start whole : List α) → Option (List α)
  | [], whole => some whole
  | _ :: _, [] => none
  | x :: start, y :: whole => if x = y then dropStart? start whole else none

theorem dropStart?_eq_some_iff {start whole rest : List α} :
    dropStart? start whole = some rest ↔ whole = start ++ rest := by
  induction start generalizing whole with
  | nil => simp [dropStart?]
  | cons x start ih =>
    cases whole with
    | nil => simp [dropStart?]
    | cons y whole => by_cases h : x = y <;> simp [dropStart?, h, ih, eq_comm]

/-- Whether `ending` stands at the end of `whole`. -/
def endsWith (ending whole : List α) : Bool := (dropStart? ending.reverse whole.reverse).isSome

theorem endsWith_iff {ending whole : List α} : endsWith ending whole = true ↔ ending <:+ whole := by
  constructor
  · intro h
    obtain ⟨rest, hr⟩ := Option.isSome_iff_exists.1 h
    refine ⟨rest.reverse, ?_⟩
    rw [← List.reverse_reverse whole, dropStart?_eq_some_iff.1 hr]
    simp
  · rintro ⟨front, rfl⟩
    refine Option.isSome_iff_exists.2 ⟨front.reverse, ?_⟩
    exact dropStart?_eq_some_iff.2 (by simp)

/-- The parts before and after the first place where `pattern` stands. -/
def cutFirstList? (pattern : List α) : List α → Option (List α × List α)
  | [] => if pattern = [] then some ([], []) else none
  | x :: rest =>
    match dropStart? pattern (x :: rest) with
    | some after => some ([], after)
    | none => (cutFirstList? pattern rest).map fun (before, after) => (x :: before, after)

/-- Whether `pattern` stands somewhere in a sequence. -/
def containsList (pattern whole : List α) : Bool := (cutFirstList? pattern whole).isSome

/-- The sequence with `new` in place of every occurrence of `old`; `skip` elements belong to an
occurrence that was replaced already. -/
def replaceFrom (old new : List α) : (skip : Nat) → List α → List α
  | _, [] => []
  | skip + 1, _ :: rest => replaceFrom old new skip rest
  | 0, x :: rest =>
    if (dropStart? old (x :: rest)).isSome then new ++ replaceFrom old new (old.length - 1) rest
    else x :: replaceFrom old new 0 rest

/-- The sequence with `new` in place of every occurrence of `old`, which is not empty. -/
def replaceAll (old new whole : List α) : List α := replaceFrom old new 0 whole

end SourceJar.Split
