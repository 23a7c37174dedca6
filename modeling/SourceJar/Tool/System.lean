import SourceJar.Tool.Base64
import SourceJar.Tool.Cat
import SourceJar.Tool.Count
import SourceJar.Tool.Dump
import SourceJar.Tool.Echo
import SourceJar.Tool.Head
import SourceJar.Tool.PathName
import SourceJar.Tool.Printf
import SourceJar.Tool.Remove
import SourceJar.Tool.Shell.Start
import SourceJar.Tool.Translate

/-!
The programs of a system with the usual text tools.

The tools are files in a directory for programs, which is one of a few directories that the system
adds to a file system as long as a program runs. No other file is a program: it can be read by the
shell, but not run.
-/

namespace SourceJar.Tool

/-- The tools other than the shell. -/
def textTools : List (String × Tool) := [
  ("base64", guarded Base64.run),
  ("basename", guarded PathName.basename),
  ("cat", guarded Cat.run),
  ("dirname", guarded PathName.dirname),
  ("echo", guarded Echo.run),
  ("false", pureTool fun _ _ => { status := 1 }),
  ("head", guarded Head.run),
  ("od", guarded Dump.run),
  ("printf", guarded Printf.run),
  ("rm", guarded Remove.run),
  ("tr", guarded Translate.run),
  ("true", pureTool fun _ _ => {}),
  ("wc", Count.run)]

/-- The directories of the system, and the links in them. -/
def systemNodes : List (Place × Inode) :=
  let place (path : String) : Place := (Split.splitOn '/' path.toList).map fun name =>
    octets (String.ofList name)
  let directories :=
    ["dev", "etc", "home", "opt", "proc", "root", "run", "srv", "sys", "tmp", "usr", "usr/bin",
      "usr/lib", "usr/local", "usr/local/bin", "usr/local/lib", "usr/local/sbin", "usr/sbin",
      "usr/share", "var", "var/tmp"]
  let links := [("bin", "usr/bin"), ("lib", "usr/lib"), ("sbin", "usr/sbin"), ("usr/bin/sh", "dash")]
  let programs := "dash" :: textTools.map (·.1)
  -- Nobody reads more zeros than these.
  let zeros := List.replicate 0x10000 0
  (place "dev/full", .device) :: (place "dev/zero", .file zeros) ::
    directories.map (fun path => (place path, .directory)) ++
    links.map (fun (path, target) => (place path, .link (pathOf target))) ++
    programs.map fun name => (place ("usr/bin/" ++ name), .file [])

/-- A file system with the directories of the system in it. -/
def install (fs : FileSystem) : FileSystem :=
  { fs with nodes := fs.nodes ++ systemNodes.filter fun (place, _) => (fs.get? place).isNone }

/-- A file system without the directories of the system that were not in it before. -/
def uninstall (before after : FileSystem) : FileSystem :=
  let added := systemNodes.filter fun (place, _) => (before.get? place).isNone
  { after with nodes := after.nodes.filter fun node => !added.contains node }

/-- The tool that a path leads to; `depth` bounds how often shells start shells. -/
def program? : (depth : Nat) → FileSystem → (path : String) → Option Tool
  | depth, fs, path =>
    match fs.locate true (pathOf path) with
    | .ok (.taken place (.file _)) =>
      if isProgramPlace place then
        match depth, ofOctets (place.getLastD []) with
        | depth + 1, "dash" => some (Shell.tool { program? := program? depth })
        | _, name => textTools.lookup name
      else none
    | _ => none

/-- How often shells can start shells. -/
def maxShells : Nat := 100

/-- What programs are told about the system. -/
def environment : List (String × String) :=
  [("HOME", "/root"), ("PATH", Shell.standardDirectories)]

/-- The path of a program: one that is given by a name is looked for in the directories for programs. -/
def programPath (program : String) (fs : FileSystem) : String :=
  if program.toList.contains '/' then program
  else
    ((Shell.pathsIn Shell.standardDirectories program).find? fun path =>
      fs.isFile (pathOf path)).getD program

/-- Starts a program of this system. -/
def start : Programs := fun program arguments input fs =>
  let program := ofText program
  let system := install fs
  match program? maxShells system (programPath program system) with
  | some tool =>
    let (r, c) := tool (arguments.map ofText) { name := program, input, fs := system, environment }
    (.ok r.result,
      { uninstall fs c.fs with workingDirectory := fs.workingDirectory })
  | none =>
    if program.toList.contains '/' then
      match system.stat (pathOf program) with
      | .ok _ => (.error (.os .accessDenied), fs)
      | .error e => (.error e, fs)
    else if program = "." || program = ".." then (.error (.os .accessDenied), fs)
    else (.error (.os .noEntry), fs)

end SourceJar.Tool
