import Wayfinder.Session.Error
import Wayfinder.Mode
import Wayfinder.Road.Graph.Basic
import Wayfinder.Router.Select
import Wayfinder.Router.Walk
import Wayfinder.Decimal.Layout

/-!
# Session configuration

Fixed when a session starts: the trip length below which walking may be chosen, the size of the
walking router's feature cache and the map scale it reads at, the mode used when no preference is
stored, and the deadline of rebuilds (zero for none).
-/

namespace Wayfinder

/-- The configuration of a session. -/
structure SessionConfig where
  /-- Trips shorter than this, metres, may be walked. -/
  keepWalking : Float := keepWalkingDistance
  /-- Features held by the walking router's cache; must be positive. -/
  cacheCapacity : Nat := defaultCacheCapacity
  /-- Map scale at which the walking router reads features. -/
  readScale : Nat := defaultReadScale
  /-- The mode when no preference is stored. -/
  defaultMode : Mode := .vehicle
  /-- Deadline of rebuilds after a deviation, milliseconds; zero for none. -/
  rebuildTimeout : Nat := 0
deriving Inhabited

/-- Refuses values no session can run with: an empty cache, and a walking distance that is not a
finite non-negative number. -/
def SessionConfig.check (c : SessionConfig) : Except SessionError Unit :=
  if c.cacheCapacity = 0 then .error (.config "cache_capacity must be non-zero")
  else if c.keepWalking.isNaN || c.keepWalking.isInf || c.keepWalking < 0.0 then
    .error (.config ("keep_pedestrian_distance_m must be a non-negative distance, got " ++
      c.keepWalking.shortestText .plain))
  else .ok ()

end Wayfinder
