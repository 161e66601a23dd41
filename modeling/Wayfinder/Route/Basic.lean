import Wayfinder.Geo.Point
import Wayfinder.Mode

/-!
# Routes

A route is the polyline of a trip with the distance from its start to each of its points and the
points where a turn is announced. Distances accumulate segment by segment, so the last one is the
route's length; a route needs at least two points to be followed.
-/

namespace Wayfinder

/-- A point of the route where a turn is announced, with its distance from the start. -/
structure Turn where
  index : Nat
  offset : Float

/-- A planned trip: its mode, its points, the distance from the start to each point and its turns. -/
structure Route where
  mode : Mode
  points : Array Point
  cumulative : Array Float
  turns : List Turn

namespace Route

/-- Running distances along `p :: rest` after `acc` metres at `p`. -/
def runningFrom (p : Point) (acc : Float) : List Point → List Float
  | [] => []
  | q :: rest =>
    let next := acc + p.distance q
    next :: runningFrom q next rest

/-- Distance from the first point to each point, the first being `0`. -/
def running : List Point → List Float
  | [] => []
  | p :: rest => 0.0 :: runningFrom p 0.0 rest

/-- The route through `points` with turns at those of `turnAt` that are point indices. -/
def ofPoints (mode : Mode) (points : List Point) (turnAt : List Nat) : Route :=
  let cumulative := (running points).toArray
  let turns := (turnAt.filter fun i => i < points.length).map fun i =>
    (⟨i, cumulative.getD i 0.0⟩ : Turn)
  ⟨mode, points.toArray, cumulative, turns⟩

/-- Whether the route has at least two points. -/
def valid (r : Route) : Bool := r.points.size ≥ 2

/-- Number of segments. -/
def segmentCount (r : Route) : Nat := r.points.size - 1

/-- Length in metres, `0` for a route without points. -/
def length (r : Route) : Float := r.cumulative.back?.getD 0.0

/-- The first point. -/
def start? (r : Route) : Option Point := r.points[0]?

/-- The last point. -/
def finish? (r : Route) : Option Point := r.points.back?

/-- Distance from the start to point `i`. -/
def offsetAt (r : Route) (i : Nat) : Float := r.cumulative.getD i 0.0

/-- The ends of segment `i`, which its type keeps inside the route. -/
def segment (r : Route) (i : Fin r.segmentCount) : Point × Point :=
  have h : i.val + 1 < r.points.size := by
    have := i.isLt
    unfold segmentCount at this
    omega
  (r.points[i.val], r.points[i.val + 1])

/-- Segments `lo` up to but excluding `hi` of a route with at least `hi` segments. -/
def window (r : Route) (lo hi : Nat) (h : hi ≤ r.segmentCount) : List (Fin r.segmentCount) :=
  (List.range' lo (hi - lo)).pmap Fin.mk fun i hi' => by
    rw [List.mem_range'_1] at hi'
    omega

end Route

end Wayfinder
