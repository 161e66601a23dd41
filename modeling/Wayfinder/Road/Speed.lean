import Wayfinder.Road.Feature
import Wayfinder.Binary.Order

/-!
# Speed models

A speed model says which roads a traveller may use, how fast, and whether one-way rules bind. Cars
use the motor roads at a speed set by the class and lowered by a positive posted limit, and keep to
one-way rules. Walkers use every road but motorways and trunks at 5 km/h, slower on tracks, paths
and steps, and ignore one-way rules.
-/

namespace Wayfinder

/-- Who travels on the roads. -/
inductive SpeedModel where
  | car
  | walker
deriving Repr, DecidableEq, Inhabited

namespace SpeedModel

/-- Car speed of a class, km/h; `none` for roads closed to cars. -/
def carSpeed : RoadClass → Option Float
  | .motorway => some 110.0
  | .trunk => some 90.0
  | .primary => some 70.0
  | .secondary => some 60.0
  | .tertiary => some 50.0
  | .unclassified => some 40.0
  | .residential => some 30.0
  | .livingStreet => some 10.0
  | .service => some 20.0
  | _ => none

/-- Walking speed of a class, km/h; `none` for roads closed to walkers. -/
def walkSpeed : RoadClass → Option Float
  | .motorway | .trunk => none
  | .steps => some 2.5
  | .track | .path => some 4.5
  | _ => some 5.0

/-- Travel speed on a feature, km/h, or `none` when the feature is closed to this traveller. -/
def speed (m : SpeedModel) (f : Feature) : Option Float :=
  match m with
  | .car =>
    (carSpeed f.roadClass).map fun s =>
      match f.maxSpeed with
      | some limit => if limit > 0.0 then Binary.minNum s limit else s
      | none => s
  | .walker => walkSpeed f.roadClass

/-- Whether one-way rules bind this traveller on the feature. -/
def oneway (m : SpeedModel) (f : Feature) : Bool :=
  match m with
  | .car => f.oneway
  | .walker => false

/-- The highest speed this traveller reaches anywhere, km/h. -/
def maxSpeed : SpeedModel → Float
  | .car => 110.0
  | .walker => 5.0

end SpeedModel

end Wayfinder
