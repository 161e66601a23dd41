import Wayfinder.Geo.Point

/-!
# Boxes

An axis-parallel box of latitudes and longitudes, given by its lower and its upper corner. Corners
are combined coordinate by coordinate with `lower` and `upper`, which keep the second value unless
the first is strictly smaller (larger). So a NaN coordinate offered second is kept and one offered
first is dropped: a box that covers several boxes depends on the order they come in, and trees of
boxes built from the same items in another order may answer queries differently.

The empty box has its lower corner at the largest finite double and its upper corner at the most
negative one, so that merging a finite box into it gives that box.
-/

namespace Wayfinder

/-- An axis-parallel box of latitudes and longitudes, given by its two corners. -/
structure Box where
  lo : Point
  hi : Point
deriving Inhabited

namespace Box

/-- The smaller of two coordinates as a box orders its corners: the second one unless the first is
smaller. -/
def lower (a b : Float) : Float := if a < b then a else b

/-- The larger of two coordinates as a box orders its corners. -/
def upper (a b : Float) : Float := if a > b then a else b

/-- The box with corners `a` and `b`, whichever way round they are given. -/
def ofCorners (a b : Point) : Box :=
  ⟨⟨lower a.lat b.lat, lower a.lon b.lon⟩, ⟨upper a.lat b.lat, upper a.lon b.lon⟩⟩

/-- The box holding the single point `p`. -/
def ofPoint (p : Point) : Box := ⟨p, p⟩

/-- Whether two boxes share a point, borders included. -/
def meets (x y : Box) : Bool :=
  x.lo.lat ≤ y.hi.lat && x.lo.lon ≤ y.hi.lon && x.hi.lat ≥ y.lo.lat && x.hi.lon ≥ y.lo.lon

/-- Whether `p` lies in the box, borders included. -/
def holds (x : Box) (p : Point) : Bool :=
  x.lo.lat ≤ p.lat && p.lat ≤ x.hi.lat && x.lo.lon ≤ p.lon && p.lon ≤ x.hi.lon

/-- The largest finite double. -/
def maxFinite : Float := 1.7976931348623157e308

/-- The box that merging starts from. -/
def empty : Box := ⟨⟨maxFinite, maxFinite⟩, ⟨-maxFinite, -maxFinite⟩⟩

/-- The box covering `x` and `y`, `x`'s coordinates offered first. -/
def merge (x y : Box) : Box :=
  ⟨⟨lower x.lo.lat y.lo.lat, lower x.lo.lon y.lo.lon⟩,
   ⟨upper x.hi.lat y.hi.lat, upper x.hi.lon y.hi.lon⟩⟩

/-- The box covering a list of boxes, merged in order into the empty box. -/
def cover (bs : List Box) : Box := bs.foldl merge empty

/-- Squared coordinate distance from `p` to the nearest point of the box, zero inside it. The
nearest point clamps each coordinate of `p` into the box, lower corner first. -/
def distance2 (x : Box) (p : Point) : Float :=
  if x.holds p then 0.0
  else
    let dLat := lower x.hi.lat (upper x.lo.lat p.lat) - p.lat
    let dLon := lower x.hi.lon (upper x.lo.lon p.lon) - p.lon
    dLat * dLat + dLon * dLon

/-- The squared distance within which some point of every face of the box is sure to lie: on
each axis take the square of the farther side, except on the axis where the two sides differ most
(the later axis on a tie), which takes the square of the nearer side. -/
def minMaxDistance2 (x : Box) (p : Point) : Float :=
  let sides (l u : Float) : Float × Float :=
    let a := l * l
    let b := u * u
    if b < a then (b, a) else (a, b)
  let (near0, far0) := sides (x.lo.lat - p.lat) (x.hi.lat - p.lat)
  let (near1, far1) := sides (x.lo.lon - p.lon) (x.hi.lon - p.lon)
  let diff0 := far0 - near0
  let diff1 := far1 - near1
  -- The widest axis so far, starting from a difference of zero at axis 0 with nothing near.
  let (widest, nearest, onLon) :=
    if diff0 ≥ 0.0 then (diff0, near0, false) else (0.0, 0.0, false)
  let (_, nearest, onLon) :=
    if diff1 ≥ widest then (diff1, near1, true) else (widest, nearest, onLon)
  if onLon then far0 + nearest else nearest + far1

end Box

end Wayfinder
