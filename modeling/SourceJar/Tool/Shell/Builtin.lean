import SourceJar.Tool.Shell.Builtin.Alias
import SourceJar.Tool.Shell.Builtin.Directory
import SourceJar.Tool.Shell.Builtin.Getopts
import SourceJar.Tool.Shell.Builtin.Input
import SourceJar.Tool.Shell.Builtin.Limit
import SourceJar.Tool.Shell.Builtin.Process
import SourceJar.Tool.Shell.Print
import SourceJar.Tool.Shell.Test

/-!
The commands that are part of the shell and run no others.
-/

namespace SourceJar.Tool.Shell

namespace Builtin

def echo : Builtin := fun arguments s =>
  done 0 (s.write 1 (octets (String.ofList (Echo.inShell arguments))))

def printf : Builtin := fun arguments s =>
  let r := Print.run arguments
  let s := r.complaints.reverse.foldl State.complain s
  done r.status (s.write 1 (octets (String.ofList r.output.reverse.flatten)))

/-- The paths that stand for descriptors that lead to pipes. -/
def pipePaths (s : State) : List String :=
  [(0, "stdin"), (1, "stdout"), (2, "stderr")].flatMap fun (descriptor, name) =>
    let isPipe := match s.channel? descriptor with
      | some (.source _ size) => size.isNone
      | some (.sink _) => true
      | _ => false
    if isPipe then
      ["/dev/" ++ name, s!"/dev/fd/{descriptor}", s!"/proc/self/fd/{descriptor}"]
    else []

def test (name : String) : Builtin := fun arguments s => do
  let value ← Test.run { system := s.fs, pipes := pipePaths s } name arguments
  done (if value then 0 else 1) s

/-- The commands of the shell that run no others. -/
def table : List (String × Builtin) := [
  (":", fun _ s => done 0 s),
  ("[", test "["),
  ("alias", setAliases),
  ("bg", moveJob),
  ("break", skip .leave),
  ("cd", cd),
  ("chdir", cd),
  ("continue", skip .again),
  ("echo", echo),
  ("exit", exit),
  ("export", share),
  ("false", fun _ s => done 1 s),
  ("fg", moveJob),
  ("getopts", getopts),
  ("jobs", jobs),
  ("kill", kill),
  ("local", hide),
  ("printf", printf),
  ("pwd", pwd),
  ("read", read),
  ("readonly", readonly),
  ("return", finish),
  ("set", set),
  ("shift", shift),
  ("test", test "test"),
  ("times", fun _ s => done 0 (s.print "0m0.000000s 0m0.000000s\n0m0.000000s 0m0.000000s\n")),
  ("trap", trap),
  ("true", fun _ s => done 0 s),
  ("ulimit", ulimit),
  ("umask", umask),
  ("unalias", dropAliases),
  ("unset", unset),
  ("wait", wait)]

end Builtin

end SourceJar.Tool.Shell
