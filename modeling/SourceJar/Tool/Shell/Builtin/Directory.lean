import SourceJar.Tool.Shell.Builtin.Basic

/-!
The commands of the shell for its directory.

The shell keeps the path by which it came to its directory. Going up takes the last name off that
path, so that the way up out of a link leads back to where the link is.
-/

namespace SourceJar.Tool.Shell

namespace Builtin

/-- The names in a path, with each `..` taking away the one before it. -/
def plainNames (path : List Char) (start : List (List Char)) : List (List Char) :=
  (Split.splitOn '/' path).foldl (fun names name =>
    if name = [] || name = ['.'] then names
    else if name = ['.', '.'] then names.dropLast
    else names ++ [name]) start

/-- The path that a path leads to from another one. Two slashes at its start stay two. -/
def pathFrom (directory path : String) : String :=
  let isTwo (path : List Char) : Bool :=
    path.take 2 = ['/', '/'] && (path.drop 2).head? ≠ some '/'
  let text := path.toList
  let absolute := text.head? = some '/'
  let names := plainNames text (if absolute then [] else plainNames directory.toList [])
  let lead := if isTwo (if absolute then text else directory.toList) then ['/', '/'] else ['/']
  String.ofList (lead ++ List.intercalate ['/'] names)

/-- Whether a path is looked for below no other directory than the one at hand. -/
def isAnchored (path : List Char) : Bool :=
  match path with
  | '/' :: _ => true
  | ['.'] => true
  | '.' :: '/' :: _ => true
  | ['.', '.'] => true
  | '.' :: '.' :: '/' :: _ => true
  | _ => false

/-- Gives a parameter a value for other programs as well. -/
def shareValue (name value : String) (s : State) : Except String State := do
  let s ← assign name value s
  return s.setParameter name ((s.parameter? name).map fun p => { p with exported := true })

/-- Goes to a directory; none if there is none. With `physical` the path has no links in it. Also what
is wrong with the parameters that hold the paths of the directories. -/
def goTo? (physical : Bool) (path : String) (s : State) : Option (State × Option String) :=
  let logical := pathFrom s.directory path
  match s.fs.directoryPlace (pathOf (if physical then path else logical)) with
  | .error _ => none
  | .ok place =>
    let tracked := s.tracked.map fun (name, t) => (name, { t with stale := true })
    let s := { s with fs := { s.fs with workingDirectory := place }, tracked }
    let directory := if physical then s.realDirectory else logical
    match shareValue "OLDPWD" s.directory s with
    | .error e => some (s, some e)
    | .ok s =>
      let s := { s with directory }
      match shareValue "PWD" directory s with
      | .error e => some (s, some e)
      | .ok s => some (s, none)

/-- Where a directory is looked for: each path, and whether the directory is shown if it is there. -/
def candidates (target : String) (s : State) : List (String × Bool) :=
  let own := if target = "" then "." else target
  match if isAnchored target.toList then none else s.value? "CDPATH" with
  | none => [(own, false)]
  | some places =>
    let below := (Split.splitOn ':' places.toList).map fun place =>
      if place.isEmpty then (own, false) else (String.ofList place ++ "/" ++ own, true)
    below.filter (fun (path, _) => s.fs.isDirectory (pathOf path)) ++ [(own, false)]

def cd : Builtin := fun arguments s => do
  let (letters, operands) ← letterOptions ['L', 'P'] arguments
  let physical := letters.getLast? = some 'P'
  let back := operands.head? = some "-"
  let target := match operands.head? with
    | none => (s.value? "HOME").getD ""
    | some path => if back then (s.value? "OLDPWD").getD "" else path
  let (path, shown) := (candidates target s).headD (target, false)
  match goTo? physical path s with
  | none => throw s!"can't cd to {target}"
  | some (s, some e) => done 2 (s.complain e)
  | some (s, none) => done 0 (if back || shown then s.print (s.directory ++ "\n") else s)

def pwd : Builtin := fun arguments s => do
  let (letters, _) ← letterOptions ['L', 'P'] arguments
  let path := if letters.getLast? = some 'P' then s.realDirectory else s.directory
  done 0 (s.print (path ++ "\n"))

end Builtin

end SourceJar.Tool.Shell
