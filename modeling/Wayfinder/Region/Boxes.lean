import Wayfinder.Geo.Point

/-!
# Regions by bounding box

The world is cut into regions, each with the name of its map file, a number and a box of
coordinates. A point belongs to the first region whose box holds it, borders included; a file name
names the first region registered under it.
-/

namespace Wayfinder

/-- A region: its file name, its number and its box. -/
structure RegionBox where
  name : String
  id : Nat
  lo : Point
  hi : Point
deriving Inhabited

/-- Whether the box of `r` holds `p`, borders included. -/
def RegionBox.holds (r : RegionBox) (p : Point) : Bool :=
  p.lat ≥ r.lo.lat && p.lat ≤ r.hi.lat && p.lon ≥ r.lo.lon && p.lon ≤ r.hi.lon

/-- The regions in the order they were registered. -/
structure Regions where
  boxes : List RegionBox
deriving Inhabited

namespace Regions

/-- The name of the file of the first region holding `p`. -/
def fileAt (rs : Regions) (p : Point) : Option String :=
  (rs.boxes.find? fun r => r.holds p).map RegionBox.name

/-- The number of the first region registered under file `name`. -/
def regionOf (rs : Regions) (name : String) : Option Nat :=
  (rs.boxes.find? fun r => r.name = name).map RegionBox.id

end Regions

end Wayfinder
