import Wayfinder.Route.Basic
import Wayfinder.Outcome

/-!
# What a session tells its listener

While it handles the worker's messages, a session tells its listener the progress of the build in
flight, the counters of each finished build, and then its result: the outcome, the route when the
outcome has one, and the regions whose maps, or whose routing data only, are missing.
-/

namespace Wayfinder

/-- Counters of one finished build. -/
structure BuildStats where
  mode : Mode
  outcome : Outcome
  visited : Nat
  cache : Option (Nat × Nat)
  routeLength : Option Float

/-- The result of one build as the listener sees it. -/
structure BuildResult where
  outcome : Outcome
  route : Option Route := none
  absentMaps : List Nat := []
  absentRouting : List Nat := []

/-- One call of the listener. -/
inductive Notice where
  | progress (percent : Float32)
  | stats (s : BuildStats)
  | built (r : BuildResult)

end Wayfinder
