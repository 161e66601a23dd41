import Wayfinder.Mode

/-!
# Guidance settings

How fixes are matched to a route, when a driver counts as off the route and how far ahead turns are
announced. Each mode has its own preset, and switching modes swaps the whole record.
-/

namespace Wayfinder

/-- Tuning of matching, deviation detection and turn announcements. -/
structure Settings where
  /-- Largest distance, metres, at which a fix still counts as on the route. -/
  snapRadius : Float
  /-- Whether the reported position is the matched point rather than the raw fix. -/
  matchRoute : Bool
  /-- Metres added to a candidate's score for a fix heading opposite to the segment. -/
  directionPenalty : Float
  /-- Distance ahead within which the next turn is announced, metres. -/
  turnLookahead : Float
  /-- Distance from the route above which a fix counts as off the route, metres. -/
  deviationThreshold : Float
  /-- Number of consecutive off-route fixes that make a deviation. -/
  deviationWindow : Nat

namespace Settings

/-- Driving: 50 m snap, matched positions, 20 m heading penalty, 300 m look-ahead, 50 m
threshold over 3 fixes. -/
def vehicle : Settings := ⟨50.0, true, 20.0, 300.0, 50.0, 3⟩

/-- Walking: 20 m snap, raw positions, headings ignored, 50 m look-ahead, 25 m threshold over 3
fixes. -/
def pedestrian : Settings := ⟨20.0, false, 0.0, 50.0, 25.0, 3⟩

/-- The preset of a mode. -/
def forMode : Mode → Settings
  | .vehicle => vehicle
  | .pedestrian => pedestrian

end Settings

end Wayfinder
