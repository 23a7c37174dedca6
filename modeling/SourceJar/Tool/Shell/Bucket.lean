/-!
Tables of names that are listed by buckets.

Entries are kept in the order in which they came. They are listed by the buckets that their names fall
in, and those of one bucket in the order in which they came.
-/

namespace SourceJar.Tool.Shell

/-- The bucket of a name, among so many. -/
def bucketOf (count : Nat) (name : String) : Nat :=
  let codes := name.toList.map Char.toNat
  codes.foldl (· + ·) (16 * codes.headD 0) % count

/-- Entries in the order of their buckets. -/
def inBuckets {α : Type} (count : Nat) (entries : List (String × α)) : List (String × α) :=
  entries.mergeSort fun a b => bucketOf count a.1 ≤ bucketOf count b.1

/-- Sets an entry, in its old place if there is one. -/
def setEntry {α : Type} (name : String) (value : α) : List (String × α) → List (String × α)
  | [] => [(name, value)]
  | (other, old) :: rest =>
    if other = name then (name, value) :: rest else (other, old) :: setEntry name value rest

/-- Takes an entry out. -/
def dropEntry {α : Type} (name : String) (entries : List (String × α)) : List (String × α) :=
  entries.filter fun (other, _) => other ≠ name

end SourceJar.Tool.Shell
