import SourceJar.Settings.Basic

/-!
Which archives a run works on.

An input that is a directory stands for the archives below it, in depth-first order with the names of
each directory in byte order; links are not followed, and archives that are outputs themselves are
passed over. Any other input stands for itself. Of inputs that are the same path by components the
first is kept. A plan pairs each archive with the path of its output.
-/

namespace SourceJar.Discovery

/-- Whether a path names an output: its stem ends in the suffix. -/
def isGenerated (s : Settings) (p : Path) : Bool :=
  match p.stemText? with
  | some stem => Split.endsWith s.output.suffix.toList stem.toList
  | none => false

/-- The path that leads from a directory down along names. -/
def descend (directory : Path) (names : Place) : Path :=
  names.foldl (fun p name => p.join ⟨name⟩) directory

/-- The regular files below a directory, in order. -/
def filesBelow (fs : FileSystem) (directory : Path) : List Path :=
  match fs.directoryPlace directory with
  | .error _ => []
  | .ok place =>
    (fs.below place).filterMap fun (names, node) =>
      match node with
      | .file _ => some (descend directory names)
      | _ => none

/-- Whether a file that was found below a directory is an archive to work on. -/
def isCandidate (s : Settings) (p : Path) : Bool := s.isArchivePath p && !isGenerated s p

/-- What an input stands for. -/
def expand (s : Settings) (fs : FileSystem) (input : Path) : Except Failure (List Path) :=
  if ¬fs.pathExists input then .error (.invalidPath input.display)
  else if fs.isDirectory input then .ok ((filesBelow fs input).filter (isCandidate s))
  else .ok [input]

/-- The paths without those that have the components of an earlier one. -/
def dropRepeats : List Path → List Path
  | [] => []
  | p :: rest => p :: (dropRepeats rest).filter fun q => !p.equivalent q

/-- The archives that the inputs stand for. -/
def discover (s : Settings) (fs : FileSystem) (inputs : List Path) : Except Failure (List Path) := do
  let found ← inputs.mapM (expand s fs)
  let archives := dropRepeats found.flatten
  if archives.isEmpty then .error (.noArchivesFound s.output.extensions) else return archives

/-- The archives with the paths of their outputs. -/
def plan (s : Settings) (fs : FileSystem) (inputs : List Path) :
    Except Failure (List (Path × Path)) := do
  let sources ← discover s fs inputs
  sources.mapM fun source => do
    let name ← outputName source s.output.suffix
    return (source, s.output.destination.join (Path.ofText name))

end SourceJar.Discovery
