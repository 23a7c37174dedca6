import SourceJar.FileSystem.Basic

/-!
Programs that can be started.

What the programs of a system do is a parameter: `Programs` says for a name, arguments and input
whether the program can be started, and then how it ends, what it writes and what it leaves in the
file system.
-/

namespace SourceJar

/-- How a program ended and what it wrote. -/
structure ProgramResult where
  status : Nat := 0
  output : Bytes := []
  errors : Bytes := []
  deriving DecidableEq, Repr

/-- What starting a program comes to. -/
abbrev Programs : Type :=
  (program : String) → (arguments : List String) → (input : Bytes) → FileSystem →
    Except IoFault ProgramResult × FileSystem

end SourceJar
