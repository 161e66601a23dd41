import Wayfinder.Geo.Point
import Wayfinder.Binary.Remainder

/-!
# Location fixes

A fix is a position reported by the device, with an optional heading, normalised into `[0, 360)`
degrees, and an accuracy radius that is 5 m unless reported.
-/

namespace Wayfinder

/-- A reported position. -/
structure Fix where
  point : Point
  bearing : Option Float := none
  accuracy : Float := 5.0
deriving Inhabited

namespace Fix

/-- A fix at `p` without heading. -/
def ofPoint (p : Point) : Fix := { point := p }

/-- The fix with heading `b`, normalised into `[0, 360)`. -/
def withBearing (f : Fix) (b : Float) : Fix := { f with bearing := some (Binary.remEuclid b 360.0) }

/-- The fix with accuracy `a` metres. -/
def withAccuracy (f : Fix) (a : Float) : Fix := { f with accuracy := a }

end Fix

end Wayfinder
