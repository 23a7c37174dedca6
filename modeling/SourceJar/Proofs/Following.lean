import Mathlib
import SourceJar.FileSystem.Operations

/-!
Where a path leads.

A walk that succeeds is a row of moves along the names of a path: it stays at a `.`, goes up at a
`..`, down into a directory or along a link, and ends at what stands there or at a free spot.
`Leads` has a rule for each move, and `walk_eq_ok_iff` says that the walk succeeds exactly if the
rules lead to its spot. What a walk depends on is then an induction on its moves.

- `Leads.stands`: in a well-formed file system the spot of a walk says what stands there.
- `Leads.mono`: what is there already is found again when more has been added.
- `Leads.walk_append`, `Leads.split`: a walk along a longer path is a walk along a shorter one and then on.
- `Leads.stays_below`: a walk without `..` does not leave a directory that has no links below it.
- `Leads.directory_eq`: where links were only replaced by files, a walk to a directory finds the old one
  or none.
- `walk_congr`: a walk depends on nothing but the directories and the places it touches.
-/

namespace SourceJar.FileSystem

/-- Whether a name can stand in a directory: a walk looks it up there. -/
structure IsName (name : Bytes) : Prop where
  ne_here : name ≠ [Path.dot]
  ne_parent : name ≠ [Path.dot, Path.dot]
  length_le : name.length ≤ maxName

/-- Whether some bytes are a single name of a path. -/
structure IsSegment (name : Bytes) : Prop where
  ne_nil : name ≠ []
  no_slash : Path.slash ∉ name

/-- Where the target of a link starts, for a link in the directory `here`. -/
def linkStart (target : Path) (here : Place) : Place := if target.isAbsolute then [] else here

/-- A walk along `names` from `here`, over at most `links` links, ends at a spot. -/
inductive Leads (fs : FileSystem) (follow : Bool) : Nat → Place → List Bytes → Bool → Spot → Prop
  | here (links : Nat) (here : Place) (slash : Bool) : Leads fs follow links here [] slash (.taken here .directory)
  | stay {links : Nat} {here : Place} {rest : List Bytes} {slash : Bool} {spot : Spot} :
      Leads fs follow links here rest slash spot → Leads fs follow links here ([Path.dot] :: rest) slash spot
  | up {links : Nat} {here : Place} {rest : List Bytes} {slash : Bool} {spot : Spot} :
      Leads fs follow links here.dropLast rest slash spot →
      Leads fs follow links here ([Path.dot, Path.dot] :: rest) slash spot
  | down {links : Nat} {here : Place} {name : Bytes} {rest : List Bytes} {slash : Bool} {spot : Spot} :
      IsName name → fs.get? (here ++ [name]) = some .directory →
      Leads fs follow links (here ++ [name]) rest slash spot → Leads fs follow links here (name :: rest) slash spot
  | along {links : Nat} {here : Place} {name : Bytes} {rest : List Bytes} {slash : Bool} {spot : Spot} {target : Path} :
      IsName name → fs.get? (here ++ [name]) = some (.link target) → ¬(rest = [] ∧ ¬follow ∧ ¬slash) →
      Leads fs follow links (linkStart target here) (namesOf target ++ rest)
        (slash || (rest = [] && endsInSlash target)) spot →
      Leads fs follow (links + 1) here (name :: rest) slash spot
  | link {links : Nat} {here : Place} {name : Bytes} {slash : Bool} {target : Path} :
      IsName name → fs.get? (here ++ [name]) = some (.link target) → ¬follow → ¬slash →
      Leads fs follow links here [name] slash (.taken (here ++ [name]) (.link target))
  | node {links : Nat} {here : Place} {name : Bytes} {slash : Bool} {node : Inode} :
      IsName name → fs.get? (here ++ [name]) = some node → node ≠ .directory → (∀ target, node ≠ .link target) →
      ¬slash → Leads fs follow links here [name] slash (.taken (here ++ [name]) node)
  | free {links : Nat} {here : Place} {name : Bytes} {slash : Bool} :
      IsName name → fs.get? (here ++ [name]) = none →
      Leads fs follow links here [name] slash (.free (here ++ [name]) slash)

/-! ## Single moves -/

section Moves

variable {fs : FileSystem} {follow slash : Bool} {links : Nat} {here : Place} {name : Bytes} {rest : List Bytes}

theorem walk_nil : fs.walk follow links here [] slash = .ok (.taken here .directory) := by
  rw [walk]

theorem walk_stay : fs.walk follow links here ([Path.dot] :: rest) slash = fs.walk follow links here rest slash := by
  rw [walk, if_pos rfl]

theorem walk_up : fs.walk follow links here ([Path.dot, Path.dot] :: rest) slash =
    fs.walk follow links here.dropLast rest slash := by
  rw [walk, if_neg (by decide), if_pos rfl]

/-- A name is looked up. -/
theorem walk_name (hn : IsName name) : fs.walk follow links here (name :: rest) slash =
    match fs.get? (here ++ [name]) with
    | none => if rest = [] then .ok (.free (here ++ [name]) slash) else .error .noEntry
    | some .directory => fs.walk follow links (here ++ [name]) rest slash
    | some (.link target) =>
      if rest = [] ∧ ¬follow ∧ ¬slash then .ok (.taken (here ++ [name]) (.link target))
      else
        match links with
        | 0 => .error .tooManyLinks
        | links + 1 =>
          fs.walk follow links (linkStart target here) (namesOf target ++ rest)
            (slash || (rest = [] && endsInSlash target))
    | some node => if rest = [] ∧ ¬slash then .ok (.taken (here ++ [name]) node) else .error .notDirectory := by
  rw [walk, if_neg hn.ne_here, if_neg hn.ne_parent, if_neg (Nat.not_lt.mpr hn.length_le)]
  rfl

theorem walk_down (hn : IsName name) (h : fs.get? (here ++ [name]) = some .directory) :
    fs.walk follow links here (name :: rest) slash = fs.walk follow links (here ++ [name]) rest slash := by
  rw [walk_name hn, h]

theorem walk_along {target : Path} (hn : IsName name) (h : fs.get? (here ++ [name]) = some (.link target))
    (hr : ¬(rest = [] ∧ ¬follow ∧ ¬slash)) :
    fs.walk follow (links + 1) here (name :: rest) slash =
      fs.walk follow links (linkStart target here) (namesOf target ++ rest)
        (slash || (rest = [] && endsInSlash target)) := by
  simp only [walk_name hn, h, if_neg hr]

end Moves

/-- A walk succeeds exactly if moves lead to its spot. -/
theorem walk_eq_ok_iff {fs : FileSystem} {follow slash : Bool} {links : Nat} {here : Place} {names : List Bytes}
    {spot : Spot} : fs.walk follow links here names slash = .ok spot ↔ Leads fs follow links here names slash spot := by
  constructor
  · intro h
    fun_induction walk fs follow links here names slash with
    | case1 links here slash => cases h; exact .here links here slash
    | case2 links here slash rest ih => exact .stay (ih h)
    | case3 links here slash rest _ ih => exact .up (ih h)
    | case4 => cases h
    | case5 links here slash name h1 h2 h3 hg =>
      cases h; exact .free ⟨h1, h2, Nat.not_lt.mp h3⟩ hg
    | case6 => cases h
    | case7 links here slash name rest h1 h2 h3 hg ih => exact .down ⟨h1, h2, Nat.not_lt.mp h3⟩ hg (ih h)
    | case8 links here slash name rest h1 h2 h3 target hg hr =>
      cases h
      obtain ⟨rfl, hf, hs⟩ := hr
      exact .link ⟨h1, h2, Nat.not_lt.mp h3⟩ hg hf hs
    | case9 => cases h
    | case10 here slash name rest h1 h2 h3 target hg hr links ih =>
      exact .along ⟨h1, h2, Nat.not_lt.mp h3⟩ hg hr (ih h)
    | case11 links here slash name rest h1 h2 h3 node hd hl hg hr =>
      cases h
      obtain ⟨rfl, hs⟩ := hr
      exact .node ⟨h1, h2, Nat.not_lt.mp h3⟩ hg hd hl hs
    | case12 => cases h
  · intro h
    induction h with
    | here => exact walk_nil
    | stay _ ih => exact walk_stay.trans ih
    | up _ ih => exact walk_up.trans ih
    | down hn hg _ ih => exact (walk_down hn hg).trans ih
    | along hn hg hr _ ih => exact (walk_along hn hg hr).trans ih
    | link hn hg hf hs => simp only [walk_name hn, hg]; exact if_pos ⟨trivial, hf, hs⟩
    | node hn hg hd hl hs =>
      rw [walk_name hn, hg]
      split <;> simp_all
    | free hn hg => rw [walk_name hn, hg]; exact if_pos rfl

theorem Leads.unique {fs : FileSystem} {follow slash : Bool} {links : Nat} {here : Place} {names : List Bytes}
    {spot spot' : Spot} (h : Leads fs follow links here names slash spot)
    (h' : Leads fs follow links here names slash spot') : spot = spot' :=
  Except.ok.inj ((walk_eq_ok_iff.mpr h).symm.trans (walk_eq_ok_iff.mpr h'))

/-! ## Well-formed file systems -/

/-- Whatever stands somewhere stands in a directory, the working directory is one, and its path leads
to it. -/
structure WellFormed (fs : FileSystem) : Prop where
  parent {place : Place} {name : Bytes} : fs.get? (place ++ [name]) ≠ none → fs.get? place = some .directory
  working : fs.get? fs.workingDirectory = some .directory
  workingNames : ∀ name ∈ fs.workingDirectory, IsName name ∧ IsSegment name

theorem get?_nil (fs : FileSystem) : fs.get? [] = some .directory := if_pos rfl

/-- A place that something stands below is a directory. -/
theorem WellFormed.directory_of_below {fs : FileSystem} (hfs : fs.WellFormed) {place below : Place}
    (hb : below ≠ []) (h : fs.get? (place ++ below) ≠ none) : fs.get? place = some .directory := by
  induction below using List.reverseRecOn with
  | nil => exact absurd rfl hb
  | append_singleton front name ih =>
    rw [← List.append_assoc] at h
    have hp := hfs.parent h
    by_cases hf : front = []
    · simpa [hf] using hp
    · exact ih hf (by simp [hp])

/-- Nothing stands below a place where nothing stands. -/
theorem WellFormed.none_below {fs : FileSystem} (hfs : fs.WellFormed) {place other : Place}
    (h : fs.get? place = none) (hp : place <+: other) : fs.get? other = none := by
  obtain ⟨below, rfl⟩ := hp
  by_cases hb : below = []
  · rw [hb, List.append_nil]; exact h
  · apply Classical.byContradiction
    intro hn
    rw [hfs.directory_of_below hb hn] at h
    cases h

/-- What a directory hangs in are directories. -/
theorem WellFormed.directory_of_prefix {fs : FileSystem} (hfs : fs.WellFormed) {place front : Place}
    (h : fs.get? place = some .directory) (hf : front <+: place) : fs.get? front = some .directory := by
  obtain ⟨rest, rfl⟩ := hf
  by_cases hr : rest = []
  · rwa [hr, List.append_nil] at h
  · exact hfs.directory_of_below hr (by rw [h]; exact Option.some_ne_none _)

theorem WellFormed.directory_dropLast {fs : FileSystem} (hfs : fs.WellFormed) {place : Place}
    (h : fs.get? place = some .directory) : fs.get? place.dropLast = some .directory := by
  by_cases hp : place = []
  · rw [hp]; exact fs.get?_nil
  · have hg : fs.get? (place.dropLast ++ [place.getLast hp]) ≠ none := by
      rw [List.dropLast_concat_getLast hp, h]
      exact Option.some_ne_none _
    exact hfs.parent hg

/-- A spot says what stands there, and a free spot is in a directory. -/
def Stands (fs : FileSystem) : Spot → Prop
  | .taken place node => fs.get? place = some node
  | .free place _ => fs.get? place = none ∧
      ∃ directory name, place = directory ++ [name] ∧ IsName name ∧ fs.get? directory = some .directory

theorem Leads.stands {fs : FileSystem} (hfs : fs.WellFormed) {follow slash : Bool} {links : Nat} {here : Place}
    {names : List Bytes} {spot : Spot} (h : Leads fs follow links here names slash spot)
    (hh : fs.get? here = some .directory) : fs.Stands spot := by
  induction h with
  | here => exact hh
  | stay _ ih => exact ih hh
  | up _ ih => exact ih (hfs.directory_dropLast hh)
  | down _ hg _ ih => exact ih hg
  | along _ _ _ _ ih =>
    refine ih ?_
    unfold linkStart
    split
    · exact fs.get?_nil
    · exact hh
  | link _ hg => exact hg
  | node _ hg => exact hg
  | free hn hg => exact ⟨hg, _, _, rfl, hn, hh⟩

/-! ## Longer paths -/

/-- What was there is found again if everything that was there is kept. -/
theorem Leads.mono {fs fs' : FileSystem} (hk : ∀ place node, fs.get? place = some node → fs'.get? place = some node)
    {follow slash : Bool} {links : Nat} {here : Place} {names : List Bytes} {place : Place} {node : Inode}
    (h : Leads fs follow links here names slash (.taken place node)) :
    Leads fs' follow links here names slash (.taken place node) := by
  generalize hs : Spot.taken place node = spot at h ⊢
  induction h with
  | here => exact .here _ _ _
  | stay _ ih => exact .stay (ih hs)
  | up _ ih => exact .up (ih hs)
  | down hn hg _ ih => exact .down hn (hk _ _ hg) (ih hs)
  | along hn hg hr _ ih => exact .along hn (hk _ _ hg) hr (ih hs)
  | link hn hg hf hsl => exact .link hn (hk _ _ hg) hf hsl
  | node hn hg hd hl hsl => exact .node hn (hk _ _ hg) hd hl hsl
  | free => cases hs

/-- A walk along a longer path goes on from the directory that the shorter one leads to. -/
theorem Leads.walk_append {fs : FileSystem} {slash : Bool} {links : Nat} {here : Place} {names : List Bytes}
    {directory : Place} (h : Leads fs true links here names slash (.taken directory .directory)) :
    ∃ left, ∀ follow more slash, more ≠ [] →
      fs.walk follow links here (names ++ more) slash = fs.walk follow left directory more slash := by
  generalize hs : Spot.taken directory .directory = spot at h
  induction h with
  | here links here slash => cases hs; exact ⟨links, fun _ _ _ _ => rfl⟩
  | stay _ ih =>
    obtain ⟨left, ih⟩ := ih hs
    exact ⟨left, fun _ _ _ hm => walk_stay.trans (ih _ _ _ hm)⟩
  | up _ ih =>
    obtain ⟨left, ih⟩ := ih hs
    exact ⟨left, fun _ _ _ hm => walk_up.trans (ih _ _ _ hm)⟩
  | down hn hg _ ih =>
    obtain ⟨left, ih⟩ := ih hs
    exact ⟨left, fun _ _ _ hm => (walk_down hn hg).trans (ih _ _ _ hm)⟩
  | @along links here name rest slash spot target hn hg hr _ ih =>
    obtain ⟨left, ih⟩ := ih hs
    refine ⟨left, fun follow more slash hm => ?_⟩
    -- in the longer path the link does not come last
    have hne : rest ++ more ≠ [] := fun e => hm (List.append_eq_nil_iff.mp e).2
    rw [List.cons_append, walk_along hn hg (fun e => hne e.1), ← ih follow more slash hm]
    simp [hne]
  | link _ _ hf => exact absurd rfl hf
  | node _ _ hd => cases hs; exact absurd rfl hd
  | free => cases hs

/-- A walk along a longer path comes to a directory on the way. -/
theorem Leads.split {fs : FileSystem} {follow slash : Bool} {links : Nat} {here : Place} {names more : List Bytes}
    {spot : Spot} (hm : more ≠ []) (h : Leads fs follow links here (names ++ more) slash spot) :
    ∃ directory left, (∀ slash, Leads fs true links here names slash (.taken directory .directory)) ∧
      Leads fs follow left directory more slash spot := by
  generalize hw : names ++ more = whole at h
  induction h generalizing names with
  | here => exact absurd (List.append_eq_nil_iff.mp hw).2 hm
  | @stay links here rest slash spot hl ih =>
    cases names with
    | nil =>
      rw [List.nil_append] at hw; subst hw
      exact ⟨here, links, fun _ => .here _ _ _, .stay hl⟩
    | cons first names =>
      obtain ⟨rfl, hr'⟩ := List.cons.inj hw
      obtain ⟨directory, left, hd, hmore⟩ := ih hr'
      exact ⟨directory, left, fun slash => .stay (hd slash), hmore⟩
  | @up links here rest slash spot hl ih =>
    cases names with
    | nil =>
      rw [List.nil_append] at hw; subst hw
      exact ⟨here, links, fun _ => .here _ _ _, .up hl⟩
    | cons first names =>
      obtain ⟨rfl, hr'⟩ := List.cons.inj hw
      obtain ⟨directory, left, hd, hmore⟩ := ih hr'
      exact ⟨directory, left, fun slash => .up (hd slash), hmore⟩
  | @down links here name rest slash spot hn hg hl ih =>
    cases names with
    | nil =>
      rw [List.nil_append] at hw; subst hw
      exact ⟨here, links, fun _ => .here _ _ _, .down hn hg hl⟩
    | cons first names =>
      obtain ⟨rfl, hr'⟩ := List.cons.inj hw
      obtain ⟨directory, left, hd, hmore⟩ := ih hr'
      exact ⟨directory, left, fun slash => .down hn hg (hd slash), hmore⟩
  | @along links here name rest slash spot target hn hg hr hl ih =>
    cases names with
    | nil =>
      rw [List.nil_append] at hw; subst hw
      exact ⟨here, links + 1, fun _ => .here _ _ _, .along hn hg hr hl⟩
    | cons first names =>
      obtain ⟨rfl, hr'⟩ := List.cons.inj hw
      have hne : rest ≠ [] := fun e => hm (List.append_eq_nil_iff.mp (hr'.trans e)).2
      have hrow : (namesOf target ++ names) ++ more = namesOf target ++ rest := by
        rw [List.append_assoc]
        exact congrArg _ hr'
      obtain ⟨directory, left, hd, hmore⟩ := ih hrow
      refine ⟨directory, left, fun slash => .along hn hg (by simp) (hd _), ?_⟩
      simpa [hne] using hmore
  | @link links here name slash target hn hg hf hsl =>
    cases names with
    | nil =>
      rw [List.nil_append] at hw; subst hw
      exact ⟨here, links, fun _ => .here _ _ _, .link hn hg hf hsl⟩
    | cons first names => exact absurd (List.append_eq_nil_iff.mp (List.cons.inj hw).2).2 hm
  | @node links here name slash node hn hg hd hl hsl =>
    cases names with
    | nil =>
      rw [List.nil_append] at hw; subst hw
      exact ⟨here, links, fun _ => .here _ _ _, .node hn hg hd hl hsl⟩
    | cons first names => exact absurd (List.append_eq_nil_iff.mp (List.cons.inj hw).2).2 hm
  | @free links here name slash hn hg =>
    cases names with
    | nil =>
      rw [List.nil_append] at hw; subst hw
      exact ⟨here, links, fun _ => .here _ _ _, .free hn hg⟩
    | cons first names => exact absurd (List.append_eq_nil_iff.mp (List.cons.inj hw).2).2 hm

/-- A walk starts with a walk down directories. -/
theorem walk_descend {fs : FileSystem} {follow slash : Bool} {links : Nat} {here : Place} {names more : List Bytes}
    (hn : ∀ name ∈ names, IsName name)
    (hd : ∀ front, front <+: names → fs.get? (here ++ front) = some .directory) :
    fs.walk follow links here (names ++ more) slash = fs.walk follow links (here ++ names) more slash := by
  induction names generalizing here with
  | nil => simp
  | cons name rest ih =>
    rw [List.cons_append, walk_down (hn _ List.mem_cons_self) (hd [name] (by simp)), ih, List.append_assoc,
      List.singleton_append]
    · exact fun other ho => hn other (List.mem_cons_of_mem _ ho)
    · intro front hf
      rw [List.append_assoc]
      exact hd _ (List.cons_prefix_cons.mpr ⟨rfl, hf⟩)

/-- A walk that follows links comes to a directory whether or not one is asked for. -/
theorem Leads.any_slash {fs : FileSystem} {slash : Bool} {links : Nat} {here : Place} {names : List Bytes}
    {directory : Place} (h : Leads fs true links here names slash (.taken directory .directory)) (slash' : Bool) :
    Leads fs true links here names slash' (.taken directory .directory) := by
  generalize hs : Spot.taken directory .directory = spot at h ⊢
  induction h generalizing slash' with
  | here => exact .here _ _ _
  | stay _ ih => exact .stay (ih slash' hs)
  | up _ ih => exact .up (ih slash' hs)
  | down hn hg _ ih => exact .down hn hg (ih slash' hs)
  | along hn hg _ _ ih => exact .along hn hg (by simp) (ih _ hs)
  | link _ _ hf => exact absurd rfl hf
  | node _ _ hd => cases hs; exact absurd rfl hd
  | free => cases hs

/-! ## Where a walk stays -/

/-- The place of a spot. -/
def Spot.place : Spot → Place
  | .taken place _ => place
  | .free place _ => place

/-- A walk that does not go up stays below a directory without links. -/
theorem Leads.stays_below {fs : FileSystem} {top : Place}
    (ht : ∀ place target, top <+: place → place ≠ top → fs.get? place ≠ some (.link target))
    {follow slash : Bool} {links : Nat} {here : Place} {names : List Bytes} {spot : Spot}
    (h : Leads fs follow links here names slash spot) (hh : top <+: here) (hn : [Path.dot, Path.dot] ∉ names) :
    top <+: spot.place := by
  have further : ∀ {here : Place} (name : Bytes), top <+: here → top <+: here ++ [name] :=
    fun name hh => hh.trans (List.prefix_append _ _)
  have apart : ∀ {here : Place} (name : Bytes), top <+: here → here ++ [name] ≠ top := by
    intro here name hh e
    have := hh.length_le
    rw [← e, List.length_append, List.length_singleton] at this
    omega
  induction h with
  | here => exact hh
  | stay _ ih => exact ih hh (List.not_mem_of_not_mem_cons hn)
  | up => exact absurd List.mem_cons_self hn
  | down _ _ _ ih => exact ih (further _ hh) (List.not_mem_of_not_mem_cons hn)
  | along _ hg => exact absurd hg (ht _ _ (further _ hh) (apart _ hh))
  | link => exact further _ hh
  | node => exact further _ hh
  | free => exact further _ hh

/-- Where all directories were kept and links were kept or replaced by files, a walk to a directory
ends at the directory that it led to before. -/
theorem Leads.directory_eq {fs fs' : FileSystem}
    (hd : ∀ place, fs.get? place = some .directory → fs'.get? place = some .directory)
    (hl : ∀ place target, fs.get? place = some (.link target) →
      fs'.get? place = some (.link target) ∨ ∃ content, fs'.get? place = some (.file content))
    {slash : Bool} {links : Nat} {here : Place} {names : List Bytes} {directory directory' : Place}
    (h : Leads fs true links here names slash (.taken directory .directory))
    (h' : Leads fs' true links here names slash (.taken directory' .directory)) : directory' = directory := by
  generalize hs : Spot.taken directory .directory = spot at h
  rw [← walk_eq_ok_iff] at h'
  induction h with
  | here => cases hs; rw [walk_nil] at h'; cases h'; rfl
  | stay _ ih => rw [walk_stay] at h'; exact ih h' hs
  | up _ ih => rw [walk_up] at h'; exact ih h' hs
  | down hn hg _ ih => rw [walk_down hn (hd _ hg)] at h'; exact ih h' hs
  | along hn hg hr _ ih =>
    rcases hl _ _ hg with hg' | ⟨content, hg'⟩
    · rw [walk_along hn hg' hr] at h'; exact ih h' hs
    · -- the walk ends at the file or fails there
      simp only [walk_name hn, hg'] at h'
      split at h' <;> cases h'
  | link _ _ hf => exact absurd rfl hf
  | node _ _ hd => cases hs; exact absurd rfl hd
  | free => cases hs

/-! ## What a walk depends on -/

/-- The places that a walk comes to and that are not directories: the links that it follows, and where
it ends or is stopped. -/
def touched (fs : FileSystem) (links : Nat) (here : Place) (names : List Bytes) : List Place :=
  match names with
  | [] => []
  | name :: rest =>
    if name = [Path.dot] then touched fs links here rest
    else if name = [Path.dot, Path.dot] then touched fs links here.dropLast rest
    else
      match fs.get? (here ++ [name]) with
      | some .directory => touched fs links (here ++ [name]) rest
      | some (.link target) =>
        (here ++ [name]) :: match links with
          | 0 => []
          | links + 1 => touched fs links (linkStart target here) (namesOf target ++ rest)
      | _ => [here ++ [name]]
termination_by (links, names.length)

section Touched

variable {fs : FileSystem} {links : Nat} {here : Place} {name : Bytes} {rest : List Bytes}

theorem touched_stay : fs.touched links here ([Path.dot] :: rest) = fs.touched links here rest := by
  rw [touched, if_pos rfl]

theorem touched_up :
    fs.touched links here ([Path.dot, Path.dot] :: rest) = fs.touched links here.dropLast rest := by
  rw [touched, if_neg (by decide), if_pos rfl]

theorem touched_name (hh : name ≠ [Path.dot]) (hp : name ≠ [Path.dot, Path.dot]) :
    fs.touched links here (name :: rest) =
      match fs.get? (here ++ [name]) with
      | some .directory => touched fs links (here ++ [name]) rest
      | some (.link target) =>
        (here ++ [name]) :: match links with
          | 0 => []
          | links + 1 => touched fs links (linkStart target here) (namesOf target ++ rest)
      | _ => [here ++ [name]] := by
  rw [touched, if_neg hh, if_neg hp]

theorem touched_descend {names more : List Bytes} (hn : ∀ name ∈ names, IsName name)
    (hd : ∀ front, front <+: names → fs.get? (here ++ front) = some .directory) :
    fs.touched links here (names ++ more) = fs.touched links (here ++ names) more := by
  induction names generalizing here with
  | nil => simp
  | cons name rest ih =>
    obtain ⟨hh, hp, -⟩ := hn _ List.mem_cons_self
    have hg : fs.get? (here ++ [name]) = some .directory := hd [name] (by simp)
    rw [List.cons_append, touched_name hh hp, hg]
    simp only
    rw [ih, List.append_assoc, List.singleton_append]
    · exact fun other ho => hn other (List.mem_cons_of_mem _ ho)
    · intro front hf
      rw [List.append_assoc]
      exact hd _ (List.cons_prefix_cons.mpr ⟨rfl, hf⟩)

/-- A walk touches what the walk along its first names touches. -/
theorem touched_append {names : List Bytes} (more : List Bytes) {place : Place}
    (h : place ∈ fs.touched links here names) : place ∈ fs.touched links here (names ++ more) := by
  fun_induction touched fs links here names with
  | case1 => cases h
  | case2 links here rest ih => rw [List.cons_append, touched_stay]; exact ih h
  | case3 links here rest _ ih => rw [List.cons_append, touched_up]; exact ih h
  | case4 links here name rest h1 h2 hg ih =>
    rw [List.cons_append, touched_name h1 h2, hg]
    exact ih h
  | case5 links here name rest h1 h2 target hg ih =>
    rw [List.cons_append, touched_name h1 h2, hg]
    cases links with
    | zero => exact h
    | succ links =>
      simp only [← List.append_assoc]
      exact (List.mem_cons.mp h).elim (fun e => e ▸ List.mem_cons_self) fun h => List.mem_cons_of_mem _ (ih h)
  | case6 links here name rest h1 h2 hd hl =>
    rw [List.cons_append, touched_name h1 h2]
    split
    · exact absurd ‹_› hd
    · exact absurd ‹_› (hl _)
    · exact h

end Touched

/-- A walk comes to the same end where all directories were kept and the places that it touches are as
they were. -/
theorem walk_congr {fs fs' : FileSystem}
    (hd : ∀ place, fs.get? place = some .directory → fs'.get? place = some .directory)
    (follow : Bool) (links : Nat) (here : Place) (names : List Bytes) (slash : Bool)
    (ht : ∀ place ∈ fs.touched links here names, fs'.get? place = fs.get? place) :
    fs'.walk follow links here names slash = fs.walk follow links here names slash := by
  fun_induction walk fs follow links here names slash with
  | case1 => exact walk_nil
  | case2 links here slash rest ih => rw [walk_stay]; exact ih (touched_stay ▸ ht)
  | case3 links here slash rest _ ih => rw [walk_up]; exact ih (touched_up ▸ ht)
  | case4 links here slash name rest h1 h2 h3 => rw [walk, if_neg h1, if_neg h2, if_pos h3]
  | case5 links here slash name h1 h2 h3 hg =>
    have hg' := (ht (here ++ [name]) (by simp [touched_name h1 h2, hg])).trans hg
    rw [walk_name ⟨h1, h2, Nat.not_lt.mp h3⟩, hg', if_pos rfl]
  | case6 links here slash name rest h1 h2 h3 hg hr =>
    have hg' := (ht (here ++ [name]) (by simp [touched_name h1 h2, hg])).trans hg
    rw [walk_name ⟨h1, h2, Nat.not_lt.mp h3⟩, hg', if_neg hr]
  | case7 links here slash name rest h1 h2 h3 hg ih =>
    rw [walk_down ⟨h1, h2, Nat.not_lt.mp h3⟩ (hd _ hg)]
    refine ih fun place hp => ht place ?_
    simpa [touched_name h1 h2, hg] using hp
  | case8 links here slash name rest h1 h2 h3 target hg hr =>
    have hg' := (ht (here ++ [name]) (by simp [touched_name h1 h2, hg])).trans hg
    simp only [walk_name ⟨h1, h2, Nat.not_lt.mp h3⟩, hg', if_pos hr]
  | case9 here slash name rest h1 h2 h3 target hg hr =>
    have hg' := (ht (here ++ [name]) (by simp [touched_name h1 h2, hg])).trans hg
    simp only [walk_name ⟨h1, h2, Nat.not_lt.mp h3⟩, hg', if_neg hr]
  | case10 here slash name rest h1 h2 h3 target hg hr links ih =>
    have hg' := (ht (here ++ [name]) (by simp [touched_name h1 h2, hg])).trans hg
    rw [walk_along ⟨h1, h2, Nat.not_lt.mp h3⟩ hg' hr]
    refine ih fun place hp => ht place ?_
    rw [touched_name h1 h2, hg]
    exact List.mem_cons_of_mem _ hp
  | case11 links here slash name rest h1 h2 h3 node hd' hl hg hr =>
    have hg' := (ht (here ++ [name]) (by
      rw [touched_name h1 h2, hg]; cases node <;> simp_all)).trans hg
    rw [walk_name ⟨h1, h2, Nat.not_lt.mp h3⟩, hg']
    cases node <;> simp_all
  | case12 links here slash name rest h1 h2 h3 node hd' hl hg hr =>
    have hg' := (ht (here ++ [name]) (by
      rw [touched_name h1 h2, hg]; cases node <;> simp_all)).trans hg
    rw [walk_name ⟨h1, h2, Nat.not_lt.mp h3⟩, hg']
    cases node <;> simp_all

end SourceJar.FileSystem
