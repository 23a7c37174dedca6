/-!
Durations as they are shown.
-/

namespace SourceJar

/-- A number of milliseconds in words: minutes and seconds, seconds, or milliseconds if it is less
than a second. -/
def durationText (milliseconds : Nat) : String :=
  let seconds := milliseconds / 1000
  if 60 ≤ seconds then s!"{seconds / 60}m {seconds % 60}s"
  else if 0 < seconds then s!"{seconds}s"
  else s!"{milliseconds}ms"

end SourceJar
