import Wayfinder.Geo.Box
import Wayfinder.Road.Class

/-!
# Road features

A road feature is one mapped road: its number, class, whether it is one-way, the smallest map scale
at which it is drawn, an optional posted speed and its polyline. Its envelope is the box spanned by
its points, computed by a running minimum and maximum that skip NaN coordinates, then ordered
corner by corner.
-/

namespace Wayfinder

/-- One mapped road. -/
structure Feature where
  id : Nat
  roadClass : RoadClass
  oneway : Bool
  minScale : Nat
  maxSpeed : Option Float
  points : Array Point
deriving Inhabited

/-- The box spanned by a polyline, `none` when it has no points. -/
def envelope (ps : List Point) : Option Box :=
  match ps with
  | [] => none
  | p :: rest =>
    let step (acc : Point × Point) (q : Point) : Point × Point :=
      (⟨Binary.minNum acc.1.lat q.lat, Binary.minNum acc.1.lon q.lon⟩,
       ⟨Binary.maxNum acc.2.lat q.lat, Binary.maxNum acc.2.lon q.lon⟩)
    let (lo, hi) := rest.foldl step (p, p)
    some (Box.ofCorners lo hi)

/-- The envelope of a feature's points. -/
def Feature.envelope (f : Feature) : Option Box := Wayfinder.envelope f.points.toList

end Wayfinder
