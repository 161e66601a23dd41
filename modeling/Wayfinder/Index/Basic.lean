import Wayfinder.Index.Contractor
import Wayfinder.Road.Store
import Wayfinder.Road.Speed
import Wayfinder.Router.Error
import Wayfinder.Spatial.Query

/-!
# Routing indexes

A routing index is the contracted junction graph of one region for cars. After contraction each
link is kept once: at its source when it leads to a node of higher rank (the upward graph searched
from a start), otherwise at its target, pointing back to its source (the upward graph searched from
a finish). Both halves are stored in compressed form: the links of node `n` occupy the index range
from `start[n]` to `start[n + 1]`. The index also keeps box trees of its nodes (by number) and
of every road segment, with its end nodes and its costs in each direction, in the order the
features were read, for looking up nodes and snapping points to roads.
-/

namespace Wayfinder

/-- Link lists of all nodes, concatenated; the links of node `n` occupy the range from
`start[n]` to `start[n + 1]`. -/
structure Csr where
  start : Array Nat
  head : Array Nat
  cost : Array Nat
  mid : Array (Option Nat)
  feature : Array Nat
deriving Inhabited

namespace Csr

/-- The concatenation of the lists, node by node. -/
def ofLists (lists : Array (Array Link)) : Csr :=
  let links := lists.toList.flatMap Array.toList
  let start := lists.foldl (fun acc ls => acc.push (acc.back?.getD 0 + ls.size)) #[0]
  ⟨start, (links.map Link.other).toArray, (links.map Link.cost).toArray,
    (links.map Link.mid).toArray, (links.map Link.feature).toArray⟩

/-- Number of links. -/
def size (c : Csr) : Nat := c.head.size

/-- The link indices of node `n`. -/
def linksOf (c : Csr) (n : Nat) : List Nat :=
  let a := c.start.getD n 0
  List.range' a (c.start.getD (n + 1) a - a)

/-- The node that owns link `i`: the last node whose range starts at or before `i`. -/
def owner (c : Csr) (i : Nat) : Nat := (c.start.toList.filter (· ≤ i)).length - 1

/-- The cheapest link of node `n` towards `h`, the first of equally cheap ones. -/
def find (c : Csr) (n h : Nat) : Option Nat :=
  (c.linksOf n).foldl (fun best i =>
    if c.head.getD i 0 ≠ h then best
    else match best with
      | some b => if c.cost.getD i 0 < c.cost.getD b 0 then some i else best
      | none => some i) none

/-- Number of shortcut links. -/
def shortcutCount (c : Csr) : Nat := (c.mid.toList.filter Option.isSome).length

end Csr

/-- A road segment as the index keeps it for snapping. -/
structure IndexSegment where
  a : Point
  b : Point
  src : Nat
  dst : Nat
  feature : Nat
  forwardMs : Nat
  backwardMs : Option Nat
deriving Inhabited

instance : Bounded IndexSegment := ⟨fun s => Box.ofCorners s.a s.b⟩

/-- A node as the index's node tree holds it. -/
structure NodeEntry where
  id : Nat
  pos : Point
deriving Inhabited

instance : Bounded NodeEntry := ⟨fun n => Box.ofPoint n.pos⟩

/-- The contracted junction graph of a region. -/
structure RoutingIndex where
  region : Nat
  crossRegion : Bool
  nodePos : Array Point
  rank : Array Nat
  up : Csr
  down : Csr
  originalLinks : Nat
  nodeTree : SpatialTree NodeEntry
  segmentTree : SpatialTree IndexSegment
deriving Inhabited

/-- Travel time in milliseconds of `meters` at `mps` metres per second, at least one. -/
def linkCost (meters mps : Float) : Nat :=
  (Binary.maxNum (Float.round (meters / mps * 1000.0)) 1.0).toUInt32.toNat

/-- Adds the links and segments of one feature. -/
def addFeatureLinks (acc : Contractor × Array IndexSegment) (f : Feature) :
    Contractor × Array IndexSegment :=
  if f.points.size < 2 then acc
  else
    match SpeedModel.car.speed f with
    | none => acc
    | some kmh =>
      let oneway := SpeedModel.car.oneway f
      let mps := kmh / 3.6
      let (ids, g) := f.points.foldl (fun (ids, g) p =>
        let (n, g) := g.intern p
        (ids.push n, g)) (#[], acc.1)
      (List.range (f.points.size - 1)).foldl (fun (g, segs) i =>
        let n0 := ids.getD i 0
        let n1 := ids.getD (i + 1) 0
        if n0 = n1 then (g, segs)
        else
          let p0 := f.points.getD i default
          let p1 := f.points.getD (i + 1) default
          let cost := linkCost (p0.distance p1) mps
          let g := g.addLink n0 n1 cost none f.id
          let g := if oneway then g else g.addLink n1 n0 cost none f.id
          (g, segs.push ⟨p0, p1, n0, n1, f.id, cost, if oneway then none else some cost⟩))
        (g, acc.2)

namespace RoutingIndex

/-- Builds the index of `region` from the features of the store drawn at `readScale`. -/
def build (store : Store) (region : Nat) (crossRegion : Bool) (readScale : Nat) :
    Except RouterError RoutingIndex := do
  if !store.hasRegion region then throw (.unknownRegion region)
  let features := (store.regionFeatures region readScale).filterMap fun id =>
    (store.feature region id).toOption
  let (g, segments) := features.foldl addFeatureLinks (Contractor.empty, #[])
  let originalLinks := g.linkCount
  let (g, rank) := g.contract
  let n := g.pos.size
  let lists := (List.range n).foldl (fun (up, down) u =>
    (g.outOf u).foldl (fun (up, down) l =>
      if rank.getD l.other 0 > rank.getD u 0 then (up.modify u (·.push l), down)
      else (up, down.modify l.other (·.push { l with other := u })))
      (up, down)) (Array.replicate n (#[] : Array Link), Array.replicate n (#[] : Array Link))
  let nodes := (List.range n).map fun i => (⟨i, g.pos.getD i default⟩ : NodeEntry)
  return ⟨region, crossRegion, g.pos, rank, Csr.ofLists lists.1, Csr.ofLists lists.2,
    originalLinks, SpatialTree.load nodes, SpatialTree.load segments.toList⟩

/-- Number of nodes. -/
def nodeCount (x : RoutingIndex) : Nat := x.nodePos.size

/-- Number of links before contraction. -/
def edgeCount (x : RoutingIndex) : Nat := x.originalLinks

/-- Number of shortcuts kept. -/
def shortcutCount (x : RoutingIndex) : Nat := x.up.shortcutCount + x.down.shortcutCount

/-- Position of node `n`. -/
def pos (x : RoutingIndex) (n : Nat) : Point := x.nodePos.getD n default

end RoutingIndex

end Wayfinder
