import Wayfinder.Index.Basic
import Wayfinder.Road.Feature

/-!
# Snapping points to indexed roads

A point is snapped to the nearest road segment of the index within a radius; equally near
segments are told apart by feature, then by start node, then by the order in which the segment
tree lists them. The snap splits the segment's costs:
leaving the point towards the segment's end costs the share of the forward cost still ahead, and
towards its start the share of the backward cost behind it, when the segment may be driven that
way. Costs are rounded to whole milliseconds.
-/

namespace Wayfinder

/-- A point projected onto an indexed road segment. -/
structure EdgeSnap where
  point : Point
  distance : Float
  feature : Nat
  src : Nat
  dst : Nat
  t : Float
  forwardMs : Nat
  backwardMs : Option Nat
deriving Inhabited

/-- The fraction `f` of a cost, clamped to `[0, 1]` and rounded to the nearest millisecond. -/
def shareOf (cost : Nat) (f : Float) : Nat :=
  (Float.round (cost.toFloat * Binary.clampTo f 0.0 1.0)).toUInt64.toNat

namespace EdgeSnap

/-- The nodes reachable from the snapped point along its segment, with their costs. -/
def exits (s : EdgeSnap) : List (Nat × Nat) :=
  (s.dst, shareOf s.forwardMs (1.0 - s.t)) ::
    match s.backwardMs with
    | some c => [(s.src, shareOf c s.t)]
    | none => []

/-- The nodes from which the snapped point is reachable along its segment, with their costs. -/
def entries (s : EdgeSnap) : List (Nat × Nat) :=
  (s.src, shareOf s.forwardMs s.t) ::
    match s.backwardMs with
    | some c => [(s.dst, shareOf c (1.0 - s.t))]
    | none => []

/-- Cost of driving from this snap straight to `other` on the same segment, if the direction is
allowed. -/
def directCost (s other : EdgeSnap) : Option Nat :=
  if s.feature ≠ other.feature || s.src ≠ other.src || s.dst ≠ other.dst then none
  else if other.t ≥ s.t then some (shareOf s.forwardMs (other.t - s.t))
  else s.backwardMs.map fun c => shareOf c (s.t - other.t)

/-- Whether `a` is preferred to `b`: nearer, then smaller feature, then smaller start node. -/
def better (a b : EdgeSnap) : Bool :=
  match Binary.totalCmp a.distance b.distance with
  | .lt => true
  | .gt => false
  | .eq => a.feature < b.feature || (a.feature = b.feature && a.src < b.src)

end EdgeSnap

namespace RoutingIndex

/-- The nearest segment to `p` within `radius` metres, among those the segment tree finds
meeting the search window, the first found of equally good ones. -/
def snap (x : RoutingIndex) (p : Point) (radius : Float) : Option EdgeSnap :=
  let (dLat, dLon) := p.degreeRadius radius
  let window := Box.ofCorners ⟨p.lat - dLat, p.lon - dLon⟩ ⟨p.lat + dLat, p.lon + dLon⟩
  (x.segmentTree.within window).foldl (fun best s =>
    let pr := p.project s.a s.b
    if !(pr.distance ≤ radius) then best
    else
      let cand : EdgeSnap :=
        ⟨pr.point, pr.distance, s.feature, s.src, s.dst, pr.t, s.forwardMs, s.backwardMs⟩
      match best with
      | some b => if cand.better b then some cand else best
      | none => some cand) none

end RoutingIndex

end Wayfinder
