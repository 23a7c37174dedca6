import SourceJar.FileSystem.Basic

/-!
Following a path.

A walk goes from directory to directory along the names of a path. `.` stays, `..` goes up, and a
symbolic link leads on along its target; after forty links the walk gives up. It ends at something
that is there, or at a free spot in a directory that is there. A slash at the end asks for a
directory.
-/

namespace SourceJar.FileSystem

/-- Where a walk ends. -/
inductive Spot where
  | taken (place : Place) (node : Inode)
  /-- Nothing is there, but the directory for it is; `slash`: a directory was asked for. -/
  | free (place : Place) (slash : Bool)
  deriving DecidableEq, Repr

/-- The greatest length of a name. -/
def maxName : Nat := 255

/-- The greatest length of a path. -/
def maxPath : Nat := 4095

/-- How many links a walk follows. -/
def maxLinks : Nat := 40

/-- The names between the slashes of a path. -/
def namesOf (p : Path) : List Bytes := (Split.splitOn Path.slash p.bytes).filter (· ≠ [])

/-- Whether a path ends in a slash. -/
def endsInSlash (p : Path) : Bool := p.bytes.getLast? == some Path.slash

/-- Walks along names from a directory. A link at the very end is followed if `follow` says so or a
directory is asked for. -/
def walk (fs : FileSystem) (follow : Bool) (links : Nat) (here : Place) (names : List Bytes)
    (slash : Bool) : Except Errno Spot :=
  match names with
  | [] => .ok (.taken here .directory)
  | name :: rest =>
    if name = [Path.dot] then walk fs follow links here rest slash
    else if name = [Path.dot, Path.dot] then walk fs follow links here.dropLast rest slash
    else if maxName < name.length then .error .nameTooLong
    else
      match fs.get? (here ++ [name]) with
      | none => if rest = [] then .ok (.free (here ++ [name]) slash) else .error .noEntry
      | some .directory => walk fs follow links (here ++ [name]) rest slash
      | some (.link target) =>
        if rest = [] ∧ ¬follow ∧ ¬slash then .ok (.taken (here ++ [name]) (.link target))
        else
          match links with
          | 0 => .error .tooManyLinks
          | links + 1 =>
            walk fs follow links (if target.isAbsolute then [] else here)
              (namesOf target ++ rest) (slash || (rest = [] && endsInSlash target))
      | some node =>
        if rest = [] ∧ ¬slash then .ok (.taken (here ++ [name]) node) else .error .notDirectory
termination_by (links, names.length)

/-- Where a path leads. -/
def locate (fs : FileSystem) (follow : Bool) (p : Path) : Except IoFault Spot :=
  if p.bytes.contains 0 then .error .nulInPath
  else if p.bytes = [] then .error (.os .noEntry)
  else if maxPath < p.bytes.length then .error (.os .nameTooLong)
  else
    let start := if p.isAbsolute then [] else fs.workingDirectory
    match walk fs follow maxLinks start (namesOf p) (endsInSlash p) with
    | .ok spot => .ok spot
    | .error errno => .error (.os errno)

end SourceJar.FileSystem
