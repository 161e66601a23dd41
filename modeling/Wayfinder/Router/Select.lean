import Wayfinder.Mode
import Wayfinder.Geo.Point

/-!
# Choosing how to travel

Trips of at least `keepWalkingDistance` metres are driven. Shorter ones are walked when the
traveller prefers walking or when driving is not possible with the local files, and driven
otherwise.
-/

namespace Wayfinder

/-- Distance, metres, from which a trip is always driven unless set otherwise. -/
def keepWalkingDistance : Float := 10000.0

namespace Mode

/-- The mode for a trip, with `threshold` metres as the distance from which it is driven;
`canDrive` says whether driving is possible. -/
def chooseWithin (threshold : Float) (start finish : Point) (preference : Option Mode)
    (canDrive : Point → Point → Bool) : Mode :=
  if start.distance finish ≥ threshold then .vehicle
  else if preference = some .pedestrian || !canDrive start finish then .pedestrian
  else .vehicle

/-- The mode for a trip, driven from `keepWalkingDistance` metres on. -/
def choose (start finish : Point) (preference : Option Mode) (canDrive : Point → Point → Bool) :
    Mode :=
  chooseWithin keepWalkingDistance start finish preference canDrive

end Mode

end Wayfinder
