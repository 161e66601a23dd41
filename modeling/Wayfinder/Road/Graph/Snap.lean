import Wayfinder.Road.Graph.Basic
import Wayfinder.Binary.Order

/-!
# Snapping points to roads

A point is snapped by projecting it onto every segment of every routable feature near it and
keeping the projections within the radius, nearest first; equally near ones are ordered by
position.
-/

namespace Wayfinder

/-- A point projected onto a road position. -/
structure Snap where
  pos : Position
  point : Point
  t : Float
  distance : Float
deriving Inhabited

/-- Whether `a` comes no later than `b`: by distance in the total order of doubles, then by
position. -/
def Snap.before (a b : Snap) : Bool :=
  match Binary.totalCmp a.distance b.distance with
  | .lt => true
  | .gt => false
  | .eq => a.pos.cmp b.pos != .gt

namespace RoadGraph

/-- Projections of `p` onto the segments of feature `id`, decoded as `f`, within `radius`. -/
def snapsAlong (g : RoadGraph) (p : Point) (radius : Float) (id : Nat) (f : Decoded) :
    List Snap :=
  (List.range f.segmentCount).filterMap fun seg =>
    let pr := p.project (f.points.getD seg default) (f.points.getD (seg + 1) default)
    if pr.distance ≤ radius then some ⟨⟨g.region, id, seg, true⟩, pr.point, pr.t, pr.distance⟩
    else none

/-- Snaps of `p` within `radius` metres, nearest first. -/
def snap (p : Point) (radius : Float) : StateM RoadGraph (List Snap) := do
  let candidates := (← get).featuresNear p radius
  let mut out : List Snap := []
  for id in candidates do
    match ← feature id with
    | none => pure ()
    | some f => if f.routable then out := out ++ (← get).snapsAlong p radius id f
  return out.mergeSort Snap.before

end RoadGraph

end Wayfinder
