import SourceJar.Failure

/-!
The request to stop.

A flag is raised once and stays raised. Work looks at it between steps and gives up as cancelled.
-/

namespace SourceJar

/-- Whether work was asked to stop. -/
structure StopFlag where
  requested : Bool := false
  deriving DecidableEq, Repr

namespace StopFlag

/-- Raises the flag. -/
def request (_ : StopFlag) : StopFlag := ⟨true⟩

/-- Whether work may go on. -/
def isRunning (f : StopFlag) : Bool := !f.requested

/-- Gives up if the flag is raised. -/
def check (f : StopFlag) : Except Failure Unit := if f.requested then .error .cancelled else .ok ()

theorem check_eq_ok_iff (f : StopFlag) : f.check = .ok () ↔ f.isRunning = true := by
  cases f with
  | mk requested => cases requested <;> simp [check, isRunning]

@[simp]
theorem isRunning_request (f : StopFlag) : f.request.isRunning = false := rfl

end StopFlag

end SourceJar
