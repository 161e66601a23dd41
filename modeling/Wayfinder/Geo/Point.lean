import Wayfinder.Binary.Remainder
import Wayfinder.Binary.Order
import Wayfinder.Decimal.Layout

/-!
# Points on the sphere

A point is a latitude and a longitude in degrees. Distances are great-circle distances on a sphere
of radius `earthRadius` (the haversine formula), bearings are initial courses in `[0, 360)`, and a
point is projected onto a segment in a local flat frame in which longitude differences are shrunk
by the cosine of the segment start's latitude. Every formula is evaluated in the order written
here, so that its rounding is fixed.
-/

namespace Wayfinder

/-- Mean radius of the earth, metres. -/
def earthRadius : Float := 6371000.0

/-- Degrees to radians: multiplication by the double nearest to `π / 180`. -/
def toRadians (x : Float) : Float := x * (3.141592653589793 / 180.0)

/-- Radians to degrees: multiplication by the double nearest to `180 / π`. -/
def toDegrees (x : Float) : Float := x * (180.0 / 3.141592653589793)

/-- A position given by latitude and longitude, degrees. -/
structure Point where
  lat : Float
  lon : Float
deriving Inhabited

namespace Point

/-- Great-circle distance in metres (haversine). -/
def distance (a b : Point) : Float :=
  let dLat := toRadians (b.lat - a.lat)
  let dLon := toRadians (b.lon - a.lon)
  let lat1 := toRadians a.lat
  let lat2 := toRadians b.lat
  let sLat := Float.sin (dLat * 0.5)
  let sLon := Float.sin (dLon * 0.5)
  let h := sLat * sLat + Float.cos lat1 * Float.cos lat2 * (sLon * sLon)
  let c := 2.0 * Float.atan2 (Float.sqrt h) (Float.sqrt (1.0 - h))
  earthRadius * c

/-- Initial course from `a` towards `b`, degrees clockwise from north in `[0, 360)`. -/
def bearing (a b : Point) : Float :=
  let lat1 := toRadians a.lat
  let lat2 := toRadians b.lat
  let dLon := toRadians (b.lon - a.lon)
  let y := Float.sin dLon * Float.cos lat2
  let x := Float.cos lat1 * Float.sin lat2 - Float.sin lat1 * Float.cos lat2 * Float.cos dLon
  Binary.remEuclid (toDegrees (Float.atan2 y x)) 360.0

/-- The point a fraction `t` of the way from `a` to `b`, coordinate by coordinate. -/
def lerp (a b : Point) (t : Float) : Point :=
  ⟨a.lat + (b.lat - a.lat) * t, a.lon + (b.lon - a.lon) * t⟩

/-- Whether both coordinates differ by at most `1e-7` degrees. -/
def near (a b : Point) : Bool :=
  (a.lat - b.lat).abs ≤ 1e-7 && (a.lon - b.lon).abs ≤ 1e-7

/-- The foot of a point on a segment: the point itself, its fraction along the segment and its
distance in metres from the point projected. -/
structure Projection where
  point : Point
  t : Float
  distance : Float

/-- The squared machine epsilon; segments shorter than its root count as a single point. -/
def tinySquared : Float := 2.220446049250313e-16 * 2.220446049250313e-16

/-- Projects `p` onto the segment `a → b`, clamping to its ends. -/
def project (p a b : Point) : Projection :=
  let k := Float.cos (toRadians a.lat)
  let bx := (b.lon - a.lon) * k
  let by_ := b.lat - a.lat
  let px := (p.lon - a.lon) * k
  let py := p.lat - a.lat
  let len2 := bx * bx + by_ * by_
  let t := if len2 ≤ tinySquared then 0.0
    else Binary.clampTo ((px * bx + py * by_) / len2) 0.0 1.0
  let foot := lerp a b t
  ⟨foot, t, distance p foot⟩

/-- Half-sides, in degrees of latitude and of longitude, of the box that holds the circle of
`radius` metres around `p`; the cosine is kept at least `1e-6` near the poles. -/
def degreeRadius (p : Point) (radius : Float) : Float × Float :=
  let dLat := toDegrees (radius / earthRadius)
  let c := Binary.maxNum (Float.cos (toRadians p.lat)) 1e-6
  (dLat, dLat / c)

/-- `(lat, lon)` with six places each. -/
def text (p : Point) : String :=
  "(" ++ p.lat.fixedText 6 ++ ", " ++ p.lon.fixedText 6 ++ ")"

end Point

/-- The angle between two headings, degrees in `[0, 180]`. -/
def headingDelta (a b : Float) : Float :=
  let d := Binary.remEuclid (a - b) 360.0
  if d > 180.0 then 360.0 - d else d

end Wayfinder
