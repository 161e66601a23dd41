import Wayfinder.Index.Basic
import Wayfinder.Road.Feature

/-!
# Nodes shared by two indexes

A node is looked up by position: the node the node tree finds nearest, accepted when it lies within
the coordinate tolerance. Two indexes share the nodes of one that have a node of the other at
their position, searched with the node tree inside the overlap of the boxes of the two node
trees; the pairs come sorted.
-/

namespace Wayfinder

namespace RoutingIndex

/-- Squared coordinate distance, the measure of nearness between nodes. -/
def gridDistance (a b : Point) : Float :=
  let dLat := a.lat - b.lat
  let dLon := a.lon - b.lon
  dLat * dLat + dLon * dLon

/-- The node the node tree finds nearest to `p`. -/
def nearest (x : RoutingIndex) (p : Point) : Option Nat :=
  (x.nodeTree.nearest (fun n => gridDistance n.pos p) p).map NodeEntry.id

/-- The node at `p`, if the nearest node lies within the coordinate tolerance. -/
def nodeAt (x : RoutingIndex) (p : Point) : Option Nat :=
  match x.nearest p with
  | some n => if (x.pos n).near p then some n else none
  | none => none

/-- The box of the node tree, if there are nodes. -/
def bounds (x : RoutingIndex) : Option Box :=
  if x.nodePos.isEmpty then none else some x.nodeTree.box

/-- Lexicographic order on pairs of node numbers. -/
def pairLe (a b : Nat × Nat) : Bool := a.1 < b.1 || (a.1 = b.1 && a.2 ≤ b.2)

/-- Pairs `(here, there)` of nodes of `x` and `y` at the same position, sorted. -/
def borderNodes (x y : RoutingIndex) : List (Nat × Nat) :=
  match x.bounds, y.bounds with
  | some a, some b =>
    let lo : Point := ⟨Binary.maxNum a.lo.lat b.lo.lat, Binary.maxNum a.lo.lon b.lo.lon⟩
    let hi : Point := ⟨Binary.minNum a.hi.lat b.hi.lat, Binary.minNum a.hi.lon b.hi.lon⟩
    if lo.lat > hi.lat || lo.lon > hi.lon then []
    else
      let overlap := Box.ofCorners lo hi
      ((x.nodeTree.within overlap).filterMap fun n =>
        (y.nodeAt n.pos).map fun o => (n.id, o)).mergeSort pairLe
  | _, _ => []

end RoutingIndex

end Wayfinder
