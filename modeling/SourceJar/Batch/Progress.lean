/-!
How far a batch has come.

A job goes through stages; each stage is a share of the job: a tenth for opening the archive, seven
tenths for its units in equal parts, and the rest for writing the output. A job never falls back, and
the batch's fraction is the mean over its jobs. Shares are counted in any numbers that can be added,
multiplied, divided and compared: in floating point for what is shown, and in rationals for what is
true of it.
-/

namespace SourceJar

/-- Numbers in which shares are counted. -/
class ShareNumber (α : Type) extends Add α, Mul α, Div α, Max α, Min α where
  ofCount : Nat → α

instance : ShareNumber Float where
  ofCount := Float.ofNat

instance : ShareNumber Rat where
  add := Rat.add
  mul := Rat.mul
  div := Rat.div
  max a b := if a.blt b then b else a
  min a b := if a.blt b then a else b
  ofCount n := Rat.ofInt n

/-- The stages of a job. -/
inductive Stage where
  | opening
  | decompiling
  /-- So many units of all are done with. -/
  | unit (done total : Nat)
  | writing
  | finished
  deriving DecidableEq, Repr

/-- One report of progress: the job it comes from, the stage that the job has reached, and a text. -/
structure ProgressEvent where
  job : Nat
  stage : Stage
  text : String
  deriving DecidableEq, Repr

namespace Progress

open ShareNumber

variable {α : Type} [ShareNumber α]

/-- The share of a job for opening its archive. -/
def setupShare : α := ofCount 1 / ofCount 10

/-- The share of a job for its units. -/
def unitsShare : α := ofCount 7 / ofCount 10

/-- How much of a job is done at a stage. -/
def share : Stage → α
  | .opening => ofCount 0
  | .decompiling => setupShare
  | .unit done total => setupShare + unitsShare * ofCount done / ofCount (max total 1)
  | .writing => setupShare + unitsShare
  | .finished => ofCount 1

/-- A share between nothing and all. -/
def clamp (x : α) : α := min (max x (ofCount 0)) (ofCount 1)

/-- The shares of all jobs after one of them has reached a stage. -/
def advance (shares : List α) (e : ProgressEvent) : List α :=
  shares.modify e.job fun old => max old (clamp (share e.stage))

/-- The mean of the shares. -/
def mean (shares : List α) : α :=
  shares.foldl (· + ·) (ofCount 0) / ofCount (max shares.length 1)

/-- The fraction of the batch after each report, from given shares on. -/
def fractionsFrom (shares : List α) : List ProgressEvent → List α
  | [] => []
  | e :: rest => mean (advance shares e) :: fractionsFrom (advance shares e) rest

/-- The fraction of a batch after each report. -/
def fractions (jobs : Nat) (events : List ProgressEvent) : List α :=
  fractionsFrom (List.replicate jobs (ofCount 0)) events

end Progress

end SourceJar
