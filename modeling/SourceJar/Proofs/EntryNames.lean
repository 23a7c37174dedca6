import SourceJar.Archive.EntryName
import SourceJar.Node

/-!
Paths spelled out of names.

The path of a directory is the names on the way to it, each with a slash after it. The names that entries
are cut into hold no slash, so a path can be read back: it determines the names in it (`directoryPath_inj`),
and where it has a slash, the path of a directory above it ends (`directoryPath_split`). The names of units
are a base and an extension (`isUnitName_iff`).
-/

namespace SourceJar

namespace Archive.EntryName

/-- The path of a directory: the names on the way to it, each with a slash after it. -/
def directoryPath : List String → String
  | [] => ""
  | name :: rest => name ++ "/" ++ directoryPath rest

theorem directoryPath_cons_append (first : String) (rest : List String) (last : String) :
    directoryPath (first :: rest) ++ last = first ++ "/" ++ (directoryPath rest ++ last) := by
  rw [directoryPath, String.append_assoc]

theorem directoryPath_append (front back : List String) :
    directoryPath (front ++ back) = directoryPath front ++ directoryPath back := by
  induction front with
  | nil => simp [directoryPath]
  | cons name rest ih => simp only [List.cons_append, directoryPath, ih, String.append_assoc]

theorem directoryPath_concat (place : List String) (name : String) :
    directoryPath (place ++ [name]) = directoryPath place ++ name ++ "/" := by
  simp [directoryPath_append, directoryPath, String.append_assoc]

theorem isDirectory_directoryPath (place : List String) (name : String) :
    isDirectory (directoryPath (place ++ [name])) = true := by
  simp [isDirectory, directoryPath_concat]

/-! ## Names without a slash -/

/-- The name holds no slash. -/
def Plain (name : String) : Prop := '/' ∉ name.toList

instance (name : String) : Decidable (Plain name) := inferInstanceAs (Decidable (_ ∉ _))

theorem Plain.append {name name' : String} (h : Plain name) (h' : Plain name') : Plain (name ++ name') := by
  unfold Plain
  rw [String.toList_append, List.mem_append]
  exact fun hm => hm.elim h h'

theorem Plain.not_isDirectory {name front : String} (h : Plain name) (hn : name ≠ "") :
    isDirectory (front ++ name) = false := by
  have hl : name.toList ≠ [] := fun e => hn (String.toList_eq_nil_iff.mp e)
  rw [isDirectory, String.toList_append, List.getLast?_append, List.getLast?_eq_some_getLast hl]
  simp only [Option.some_or, beq_eq_false_iff_ne, ne_eq, Option.some.injEq]
  exact fun e => h (e ▸ List.getLast_mem hl)

theorem plain_of_mem_segments {name segment : String} (h : segment ∈ segments name) : Plain segment := by
  obtain ⟨piece, hp, rfl⟩ := List.mem_map.mp (List.mem_filter.mp h).1
  rw [Plain, String.toList_ofList]
  exact Split.notMem_of_mem_splitOn hp

/-- The first slash is where the first name ends. -/
theorem append_slash_inj {x y a b : String} (hx : Plain x) (hy : Plain y)
    (h : x ++ "/" ++ a = y ++ "/" ++ b) : x = y ∧ a = b := by
  have hl : ∀ u v : String, (u ++ "/" ++ v).toList = u.toList ++ '/' :: v.toList := fun u v => by
    simp [String.toList_append]
  have hc : Split.cutFirst? '/' (x ++ "/" ++ a).toList = some (x.toList, a.toList) :=
    Split.cutFirst?_eq_some_iff.mpr ⟨hx, hl x a⟩
  have hc' : Split.cutFirst? '/' (y ++ "/" ++ b).toList = some (y.toList, b.toList) :=
    Split.cutFirst?_eq_some_iff.mpr ⟨hy, hl y b⟩
  rw [h, hc'] at hc
  obtain ⟨e, e'⟩ := Prod.mk.inj (Option.some.inj hc)
  exact ⟨(String.toList_inj.mp e).symm, (String.toList_inj.mp e').symm⟩

/-- A name with a slash is cut at its first one. -/
theorem exists_first_slash {name : String} (h : ¬Plain name) : ∃ x a, Plain x ∧ name = x ++ "/" ++ a := by
  rcases hc : Split.cutFirst? '/' name.toList with _ | ⟨before, after⟩
  · refine (h fun hm => ?_).elim
    obtain ⟨before, after, e, hb⟩ := List.eq_append_cons_of_mem hm
    have := Split.cutFirst?_eq_some_iff.mpr ⟨hb, e⟩
    rw [hc] at this
    cases this
  · obtain ⟨hb, e⟩ := Split.cutFirst?_eq_some_iff.mp hc
    refine ⟨String.ofList before, String.ofList after, ?_, ?_⟩
    · rwa [Plain, String.toList_ofList]
    · apply String.toList_inj.mp
      simp [e]

/-- Where a path has a slash, the path of a directory above it ends. -/
theorem directoryPath_split {place : List String} {last q r : String} (hp : ∀ name ∈ place, Plain name)
    (hl : Plain last) (h : directoryPath place ++ last = q ++ "/" ++ r) :
    ∃ front name back, place = front ++ name :: back ∧ q ++ "/" = directoryPath (front ++ [name]) ∧
      r = directoryPath back ++ last := by
  induction place generalizing q with
  | nil =>
    rw [directoryPath, String.empty_append] at h
    refine absurd ?_ hl
    rw [h]
    simp [String.toList_append]
  | cons first rest ih =>
    obtain ⟨hf, hr⟩ := List.forall_mem_cons.mp hp
    rw [directoryPath_cons_append] at h
    by_cases hq : Plain q
    · obtain ⟨rfl, e⟩ := append_slash_inj hf hq h
      exact ⟨[], first, rest, rfl, by simp [directoryPath], e.symm⟩
    · obtain ⟨x, a, hx, rfl⟩ := exists_first_slash hq
      have hx' : x ++ "/" ++ a ++ "/" ++ r = x ++ "/" ++ (a ++ "/" ++ r) := by simp only [String.append_assoc]
      obtain ⟨rfl, e⟩ := append_slash_inj hf hx (h.trans hx')
      obtain ⟨front, name, back, rfl, e', er⟩ := ih hr e
      refine ⟨first :: front, name, back, rfl, ?_, er⟩
      rw [List.cons_append, directoryPath, ← e']
      simp only [String.append_assoc]

/-- A path determines the names in it. -/
theorem directoryPath_inj {place place' : List String} {last last' : String} (hp : ∀ name ∈ place, Plain name)
    (hp' : ∀ name ∈ place', Plain name) (hl : Plain last) (hl' : Plain last')
    (h : directoryPath place ++ last = directoryPath place' ++ last') : place = place' ∧ last = last' := by
  have hslash : ∀ first rest last, ¬Plain (directoryPath (first :: rest) ++ last) := by
    intro first rest last hplain
    exact hplain (by simp [directoryPath, String.toList_append])
  have hnil : ∀ last, directoryPath [] ++ last = last := fun last => by rw [directoryPath, String.empty_append]
  induction place generalizing place' with
  | nil =>
    rw [hnil] at h
    cases place' with
    | nil => exact ⟨rfl, h.trans (hnil last')⟩
    | cons first rest =>
      rw [h] at hl
      exact absurd hl (hslash first rest last')
  | cons first rest ih =>
    cases place' with
    | nil =>
      rw [hnil] at h
      rw [← h] at hl'
      exact absurd hl' (hslash first rest last)
    | cons first' rest' =>
      obtain ⟨hf, hr⟩ := List.forall_mem_cons.mp hp
      obtain ⟨hf', hr'⟩ := List.forall_mem_cons.mp hp'
      rw [directoryPath_cons_append, directoryPath_cons_append] at h
      obtain ⟨rfl, e⟩ := append_slash_inj hf hf' h
      obtain ⟨rfl, e'⟩ := ih hr hr' e
      exact ⟨rfl, e'⟩

end Archive.EntryName

/-! ## Names of classes -/

namespace Node

/-- A name has an extension exactly when its last dot has something before and after it. -/
theorem cutName_eq_iff {name base extension : String} (he : extension ≠ "") :
    cutName name = (base, extension) ↔
      base ≠ "" ∧ '.' ∉ extension.toList ∧ name = base ++ "." ++ extension := by
  have hlist : ∀ {text : String}, text ≠ "" → text.toList ≠ [] := fun h e => h (String.toList_eq_nil_iff.mp e)
  have hcut : Split.cutLast? '.' name.toList = some (base.toList, extension.toList) ↔
      '.' ∉ extension.toList ∧ name = base ++ "." ++ extension := by
    rw [Split.cutLast?_eq_some_iff, ← String.toList_inj]
    simp [String.toList_append]
  rw [← hcut]
  unfold cutName
  constructor
  · intro h
    split at h
    · exact absurd (Prod.mk.inj h).2.symm he
    · exact absurd (Prod.mk.inj h).2.symm he
    · rename_i before after hb ha hc
      obtain ⟨rfl, rfl⟩ := Prod.mk.inj h
      simp only [String.toList_ofList, hc, and_true]
      intro e
      exact hb (by simpa using congrArg String.toList e)
    · exact absurd (Prod.mk.inj h).2.symm he
  · intro h
    obtain ⟨hb, hc⟩ := h
    obtain ⟨c, cs, hbs⟩ := List.exists_cons_of_ne_nil (hlist hb)
    obtain ⟨d, ds, hes⟩ := List.exists_cons_of_ne_nil (hlist he)
    rw [hc, hbs, hes]
    show (String.ofList (c :: cs), String.ofList (d :: ds)) = _
    rw [← hbs, ← hes, String.ofList_toList, String.ofList_toList]

theorem cutName_class {base : String} (hb : base ≠ "") : cutName (base ++ ".class") = (base, classExtension) := by
  refine (cutName_eq_iff (by decide)).mpr ⟨hb, by decide, ?_⟩
  rw [String.append_assoc]; rfl

/-- Units are named by a base that is not empty and `.class`, without a mark of nesting. -/
theorem isUnitName_iff {name : String} :
    isUnitName name = true ↔ ∃ base, base ≠ "" ∧ name = base ++ ".class" ∧ nestedMark ∉ name.toList := by
  simp only [isUnitName, Bool.and_eq_true, beq_iff_eq, Bool.not_eq_true', List.contains_eq_mem,
    decide_eq_false_iff_not]
  constructor
  · intro h
    obtain ⟨hc, hn⟩ := h
    have he : classExtension ≠ "" := by decide
    have hcut : cutName name = ((cutName name).1, classExtension) := Prod.ext rfl hc
    obtain ⟨hb, -, e⟩ := (cutName_eq_iff he).mp hcut
    refine ⟨_, hb, e.trans ?_, hn⟩
    rw [String.append_assoc]; rfl
  · intro h
    obtain ⟨base, hb, rfl, hn⟩ := h
    exact ⟨congrArg Prod.snd (cutName_class hb), hn⟩

end Node

end SourceJar
