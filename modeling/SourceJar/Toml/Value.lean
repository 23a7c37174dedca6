/-!
TOML values, and how keys and headers build a document out of them.

Tables come about in four ways, and each way allows other additions later: by a header, on the way
to a header, on the way along a dotted key, or written inline, which closes the table. An array of
tables grows by one table with each of its headers.
-/

namespace SourceJar

/-- How a table came about. -/
inductive TableOrigin where
  | header
  | implied
  | dotted
  | inlined
  deriving DecidableEq, Repr

/-- A TOML value. Of floats and dates no more is kept than that they are there. -/
inductive Toml where
  | string (text : String)
  | integer (value : Int)
  | boolean (value : Bool)
  | float
  | datetime
  | array (items : List Toml)
  | table (origin : TableOrigin) (fields : List (String × Toml))
  /-- An array of tables, one for each of its headers. -/
  | tables (items : List (List (String × Toml)))

namespace Toml

/-- The fields of a table. -/
abbrev Fields := List (String × Toml)

/-- The value of a field. -/
def lookup (key : String) : Fields → Option Toml
  | [] => none
  | (other, value) :: rest => if other = key then some value else lookup key rest

/-- Gives a field a value, in its old position if it was there. -/
def set (key : String) (value : Toml) : Fields → Fields
  | [] => [(key, value)]
  | (other, old) :: rest =>
    if other = key then (key, value) :: rest else (other, old) :: set key value rest

/-- Changes the last item of a list that is not empty. -/
def changeLast {α : Type} (change : α → Option α) : List α → Option (List α)
  | [] => none
  | [last] => (change last).map fun last => [last]
  | first :: rest => (changeLast change rest).map fun rest => first :: rest

/-- Goes down along keys and changes the fields found there. Tables on the way are made as needed;
along a dotted key only tables that came about on the way may be entered. The change is told how
the table it is applied to came about. -/
def alter (dotted : Bool) (change : TableOrigin → Fields → Option Fields) (origin : TableOrigin) :
    List String → Fields → Option Fields
  | [], fields => change origin fields
  | key :: keys, fields =>
    let made : TableOrigin := if dotted then .dotted else .implied
    match lookup key fields with
    | none => do
      let inner ← alter dotted change made keys []
      return set key (.table made inner) fields
    | some (.table origin inner) =>
      if origin = .inlined ∨ (dotted ∧ origin = .header) then none
      else do
        let inner ← alter dotted change origin keys inner
        return set key (.table origin inner) fields
    | some (.tables items) => do
      let items ← changeLast (alter dotted change .header keys) items
      return set key (.tables items) fields
    | some _ => none

/-- Adds a field that is not there yet. -/
def addNew (key : String) (value : Toml) (fields : Fields) : Option Fields :=
  match lookup key fields with
  | none => some (set key value fields)
  | some _ => none

/-- A key with its last part apart. -/
structure Key where
  leading : List String
  last : String
  deriving DecidableEq, Repr

/-- Adds a value under a key. A key with several parts must end in a table of dotted keys. -/
def addPair (key : Key) (value : Toml) (origin : TableOrigin) (fields : Fields) : Option Fields :=
  alter true (fun found inner =>
    if key.leading ≠ [] ∧ found ≠ .dotted then none else addNew key.last value inner)
    origin key.leading fields

/-- Opens the table of a header. It may have come about on the way to another header, and in no
other way. -/
def openTable (key : Key) (fields : Fields) : Option Fields :=
  alter false (fun _ inner =>
    match lookup key.last inner with
    | none => some (set key.last (.table .header []) inner)
    | some (.table .implied found) => some (set key.last (.table .header found) inner)
    | some _ => none) .header key.leading fields

/-- Opens a new table of an array of tables. -/
def openItem (key : Key) (fields : Fields) : Option Fields :=
  alter false (fun _ inner =>
    match lookup key.last inner with
    | none => some (set key.last (.tables [[]]) inner)
    | some (.tables items) => some (set key.last (.tables (items ++ [[]])) inner)
    | some _ => none) .header key.leading fields

/-- A line of a document. -/
inductive Line where
  | pair (key : Key) (value : Toml)
  | header (key : Key)
  | itemHeader (key : Key)

/-- A document as far as it is built: its fields, and the keys of the table that pairs go to. -/
structure Document where
  fields : Fields := []
  current : List String := []

/-- Takes one line into a document. -/
def Document.step (d : Document) : Line → Option Document
  | .pair key value => do
    let add := fun _ inner => addPair key value .header inner
    return { d with fields := ← alter false add .header d.current d.fields }
  | .header key => do
    return ⟨← openTable key d.fields, key.leading ++ [key.last]⟩
  | .itemHeader key => do
    return ⟨← openItem key d.fields, key.leading ++ [key.last]⟩

/-- The fields that the lines of a document build. -/
def ofLines (lines : List Line) : Option Fields :=
  (lines.foldlM Document.step {}).map (·.fields)

/-- The fields of an inline table. -/
def ofPairs (pairs : List (Key × Toml)) : Option Fields :=
  pairs.foldlM (fun fields (key, value) => addPair key value .header fields) []

end Toml

end SourceJar
