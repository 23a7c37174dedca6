import SourceJar.Text.Split

/-!
Names of archive entries.

A name is a row of segments with `/` between them. It is safe if it has no NUL, does not start at
the root, and never climbs above the place where the archive is unpacked: reading its segments from
left to right, `..` goes up one level and every segment other than `.` and the empty one goes down.
-/

namespace SourceJar.Archive.EntryName

/-- The pieces of a name between slashes, empty ones included. -/
def pieces (name : String) : List String :=
  (Split.splitOn '/' name.toList).map String.ofList

/-- The segments of a name: its pieces that are not empty. -/
def segments (name : String) : List String := (pieces name).filter (· ≠ "")

/-- Whether a name is that of a directory. -/
def isDirectory (name : String) : Bool := name.toList.getLast? == some '/'

/-- Follows segments down and up from a depth; `none` once they climb above the start. -/
def depthAfter : List String → Nat → Option Nat
  | [], depth => some depth
  | segment :: rest, depth =>
    if segment = "" ∨ segment = "." then depthAfter rest depth
    else if segment = ".." then
      match depth with
      | 0 => none
      | depth + 1 => depthAfter rest depth
    else depthAfter rest (depth + 1)

/-- Whether unpacking an entry of this name stays below the place of unpacking. -/
def isSafe (name : String) : Bool :=
  !name.toList.contains '\x00' && name.toList.head? != some '/' &&
    (depthAfter (pieces name) 0).isSome

end SourceJar.Archive.EntryName
