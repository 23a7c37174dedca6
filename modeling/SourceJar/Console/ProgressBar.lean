import SourceJar.Console.Duration
import SourceJar.Text.Split

/-!
The bar that shows how far a batch has come.

A bar has a position out of a number of steps, which only grows, and a message, in which a tab takes
as much room as eight blanks. A bar that is not shown has no length but counts all the same.
-/

namespace SourceJar

/-- A progress bar. -/
structure ProgressBar where
  length : Option Nat := none
  position : Nat := 0
  message : String := ""
  finished : Bool := false
  deriving DecidableEq, Repr

namespace ProgressBar

/-- The steps of a batch's bar. -/
def steps : Nat := 1000

/-- The bar for a batch of so many archives. -/
def forBatch (shown : Bool) (archives : Nat) : ProgressBar :=
  if shown then { length := some steps, message := s!"Preparing {archives} archive(s)..." } else {}

/-- The step nearest to a fraction; a half goes up, and what is no number counts as nothing. -/
def stepOf (fraction : Float) : Nat :=
  let inRange := if fraction < 0 then 0 else if 1 < fraction then 1 else fraction
  (inRange * Float.ofNat steps).round.toUInt64.toNat

/-- The blanks that a tab stands for. -/
def tabWidth : Nat := 8

/-- A message as a bar shows it. -/
def messageText (text : String) : String :=
  String.ofList (Split.replaceAll ['\t'] (List.replicate tabWidth ' ') text.toList)

/-- The bar after a report of progress. -/
def update (bar : ProgressBar) (fraction : Float) (text : String) : ProgressBar :=
  { bar with position := max bar.position (stepOf fraction), message := messageText text }

/-- The bar at the end of work that took so many milliseconds. -/
def finish (bar : ProgressBar) (text : String) (milliseconds : Nat) : ProgressBar :=
  { bar with
    position := bar.length.getD bar.position
    message := messageText s!"{text} (completed in {durationText milliseconds})"
    finished := true }

end ProgressBar

end SourceJar
