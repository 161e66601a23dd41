import Wayfinder.Settings

/-!
# Leaving the route

A follower has left the route when its last fixes, as many as the deviation window (at least one),
were all farther from the route than the deviation threshold.
-/

namespace Wayfinder

/-- The number of consecutive fixes off the route. -/
structure OffRoute where
  count : Nat := 0
deriving Inhabited

/-- Records the distance of a fix from the route; says whether the follower has left it. -/
def OffRoute.record (o : OffRoute) (distance : Float) (s : Settings) : Bool × OffRoute :=
  let o : OffRoute := if distance > s.deviationThreshold then ⟨o.count + 1⟩ else ⟨0⟩
  (o.count ≥ max s.deviationWindow 1, o)

end Wayfinder
