import Wayfinder.Road.Graph.Turns
import Wayfinder.Road.Graph.Snap
import Wayfinder.Road.Graph.Path
import Wayfinder.Router.Atlas
import Wayfinder.Router.Plan
import Wayfinder.Router.Monitor
import Wayfinder.Search.Queue

/-!
# Planning walks

Walks are planned on the road graph of the start's region with the walking speed model, by an A*
search from both ends. The forward side starts on the start's snapped segment, in both directions,
paying the part of the segment still ahead; the backward side likewise ends on the finish's
segment. Each side estimates the rest of the way by the straight-line distance to its goal at the
highest walking speed. The side with the shorter queue moves, unless its queue is exhausted; the
search stops when either side's cheapest estimate reaches the best meeting cost found.

Every entry taken from a queue is a step for the monitor; at every `pollInterval`-th step the
monitor may stop the search and is told how far the estimate of the remaining way has shrunk.
The search itself has no bound on its steps: a NaN travel time makes every comparison with it
false, and positions around a loop of roads through such a segment are queued again and again.
Here it is given up without a route after `searchFuel` steps, far more than any search that ends
takes.
-/

namespace Wayfinder

/-- A queue entry: estimated total, cost so far and position. -/
structure WalkEntry where
  f : Float
  g : Float
  pos : Position
deriving Inhabited

/-- Entries come out by estimated total in the total order of doubles, then by position. -/
def WalkEntry.lt (a b : WalkEntry) : Bool :=
  match Binary.totalCmp a.f b.f with
  | .lt => true
  | .gt => false
  | .eq => a.pos.cmp b.pos == .lt

/-- One side of the search: its queue, the cost of each position reached, the position each was
reached from, and the goal its estimates aim at. -/
structure Frontier where
  queue : Queue WalkEntry
  cost : List (Position × Float)
  parent : List (Position × Position)
  goal : Point
deriving Inhabited

namespace Frontier

/-- The side aiming at `goal`, with nothing reached yet. -/
def create (goal : Point) : Frontier := ⟨Queue.empty, [], [], goal⟩

/-- Cost of a position reached. -/
def cost? (s : Frontier) (p : Position) : Option Float := (s.cost.find? (·.1 = p)).map Prod.snd

/-- Records the cost of a position. -/
def setCost (s : Frontier) (p : Position) (g : Float) : Frontier :=
  { s with cost := (p, g) :: s.cost.filter (·.1 ≠ p) }

/-- Records where a position was reached from. -/
def setParent (s : Frontier) (p q : Position) : Frontier :=
  { s with parent := (p, q) :: s.parent.filter (·.1 ≠ p) }

/-- Where a position was reached from. -/
def parent? (s : Frontier) (p : Position) : Option Position :=
  (s.parent.find? (·.1 = p)).map Prod.snd

/-- Estimated total of the cheapest entry; infinity when the queue is empty. -/
def minF (s : Frontier) : Float := (s.queue.peek?.map WalkEntry.f).getD (1.0 / 0.0)

/-- Adds an entry. -/
def push (s : Frontier) (e : WalkEntry) : Frontier := { s with queue := s.queue.push WalkEntry.lt e }

end Frontier

/-- The state of the search. -/
structure WalkSearch where
  fwd : Frontier
  bwd : Frontier
  best : Float
  meet : Option Position
  remaining : Float
  monitor : Monitor
deriving Inhabited

namespace RoadGraph

/-- Estimated time from a position to `goal`: from its end going forward, from its start going
backward, at `maxMps`. -/
def estimate (p : Position) (forward : Bool) (goal : Point) (maxMps : Float) :
    StateM RoadGraph Float := do
  match ← positionPoints p with
  | some (a, b) => return (if forward then b else a).distance goal / maxMps
  | none => return 0.0

/-- Seeds a side with the snapped positions and the shares of their costs. -/
def seed (s : Frontier) (forward : Bool) (maxMps : Float) :
    List (Position × Float) → StateM RoadGraph Frontier
  | [] => return s
  | (p, share) :: rest => do
    match ← positionSecs p with
    | some c =>
      let g := c * share
      let h ← estimate p forward s.goal maxMps
      seed ((s.setCost p g).push ⟨g + h, g, p⟩) forward maxMps rest
    | none => seed s forward maxMps rest

/-- Relaxes the turns from an entry taken on side `own`, the other side being `other`. -/
def relax (forward : Bool) (maxMps : Float) (e : WalkEntry) (other : Frontier) :
    List (Position × Float) → Frontier × Float × Option Position →
      StateM RoadGraph (Frontier × Float × Option Position)
  | [], acc => return acc
  | (next, c) :: rest, (own, best, meet) => do
    let g := e.g + c
    if (own.cost? next).any (g ≥ ·) then relax forward maxMps e other rest (own, best, meet)
    else
      let own := (own.setCost next g).setParent next e.pos
      let (best, meet) := match other.cost? next with
        | some go => let through := g + go - c; if through < best then (through, some next) else (best, meet)
        | none => (best, meet)
      let h ← estimate next forward own.goal maxMps
      relax forward maxMps e other rest (own.push ⟨g + h, g, next⟩, best, meet)

/-- Takes entry `e` off side `own`, going `forward` or backward, the other side being `other`:
an entry that a cheaper cost of its position has overtaken changes nothing; otherwise the turns of
its position are relaxed, and a meeting at the position itself is considered. -/
def expand (forward : Bool) (maxMps : Float) (e : WalkEntry) (own other : Frontier) (best : Float)
    (meet : Option Position) : StateM RoadGraph (Frontier × Float × Option Position) := do
  if (own.cost? e.pos).any (e.g > ·) then return (own, best, meet)
  -- the turns out of the position going forward, into it going backward
  let turns ← adjacent e.pos forward
  let (own, best, meet) ← relax forward maxMps e other turns (own, best, meet)
  match other.cost? e.pos with
  | some go =>
    let c := (← positionSecs e.pos).getD 0.0
    let through := e.g + go - c
    return if through < best then (own, through, some e.pos) else (own, best, meet)
  | none => return (own, best, meet)

/-- The search loop, with `fuel` for the number of queue entries taken; the outcome is the reason
the search was stopped before its own test ended it: the monitor's, or `routeNotFound` when the
fuel is spent. -/
def walkLoop (maxMps totalH : Float) : Nat → WalkSearch → StateM RoadGraph (Option Outcome × WalkSearch)
  | 0, st => return (some .routeNotFound, st)
  | fuel + 1, st => do
    let minF := st.fwd.minF
    let minB := st.bwd.minF
    if minF ≥ st.best || minB ≥ st.best || (minF.isInf && minB.isInf) then return (none, st)
    let forward := (st.fwd.queue.size ≤ st.bwd.queue.size && !minF.isInf) || minB.isInf
    let own := if forward then st.fwd else st.bwd
    let other := if forward then st.bwd else st.fwd
    match own.queue.pop? with
    | none => return (none, st)
    | some (e, q) =>
      let monitor := st.monitor.tick
      match monitor.stopNow? with
      | some o => return (some o, { st with monitor := monitor })
      | none =>
        let monitor := if monitor.visited % pollInterval = 0 && totalH > 0.0 then
            monitor.report (100.0 * (1.0 - st.remaining / totalH)).toFloat32
          else monitor
        let remaining := if forward then Binary.minNum st.remaining (e.f - e.g) else st.remaining
        let (own, best, meet) ← expand forward maxMps e { own with queue := q } other st.best st.meet
        walkLoop maxMps totalH fuel
          (if forward then ⟨own, other, best, meet, remaining, monitor⟩
           else ⟨other, own, best, meet, remaining, monitor⟩)

/-- Follows parents from `p` to a position without one, collecting the positions passed; `none`
when that takes more than `fuel` steps. -/
def followParents (s : Frontier) : Nat → Position → Option (List Position)
  | 0, _ => none
  | fuel + 1, p =>
    match s.parent? p with
    | some q => (followParents s fuel q).map (q :: ·)
    | none => some []

/-- The cheapest walk from snap `src` to snap `dst` as a list of positions, `none` when there is
none, or the outcome with which the search was stopped. A walk back along parents that does not
end, which only a search that cannot end leaves behind, fails as `routeNotFound`. -/
def walkSearch (src dst : Snap) (m : Monitor) (fuel : Nat) :
    StateM RoadGraph (Except Outcome (Option (List Position)) × Monitor) := do
  let maxMps := (← get).model.maxSpeed / 3.6
  let fwd ← seed (Frontier.create dst.point) true maxMps
    [(src.pos, 1.0 - src.t), (src.pos.reversed, src.t)]
  let bwd ← seed (Frontier.create src.point) false maxMps
    [(dst.pos, dst.t), (dst.pos.reversed, 1.0 - dst.t)]
  let totalH := src.point.distance dst.point / maxMps
  let (stop, st) ← walkLoop maxMps totalH fuel ⟨fwd, bwd, 1.0 / 0.0, none, totalH, m⟩
  match stop with
  | some o => return (.error o, st.monitor)
  | none =>
    match st.meet with
    | none => return (.ok none, st.monitor)
    | some meet =>
      let n := st.fwd.parent.length + st.bwd.parent.length + 1
      match followParents st.fwd n meet, followParents st.bwd n meet with
      | some before, some after => return (.ok (some (before.reverse ++ meet :: after)), st.monitor)
      | _, _ => return (.error .routeNotFound, st.monitor)

end RoadGraph

/-- Snap radius of walks unless set otherwise, metres. -/
def defaultWalkSnap : Float := 500.0

/-- Cache capacity of the walking graph unless set otherwise. -/
def defaultCacheCapacity : Nat := 1024

/-- A router for walks with its road graph, kept between requests while they stay in one region. -/
structure WalkRouter where
  capacity : Nat
  capacity_pos : 0 < capacity
  readScale : Nat
  snapRadius : Float
  graph : Option RoadGraph

namespace WalkRouter

/-- A router without a graph yet. -/
def create (capacity : Nat) (h : 0 < capacity) (readScale : Nat) (snapRadius : Float) : WalkRouter :=
  ⟨capacity, h, readScale, snapRadius, none⟩

/-- Empties the cache of the graph, if there is one. -/
def softReset (r : WalkRouter) : WalkRouter := { r with graph := r.graph.map RoadGraph.softReset }

/-- The graph for `region`: the kept one if it is of that region, else a new one. -/
def graphFor (r : WalkRouter) (s : Store) (region : Nat) : RoadGraph :=
  match r.graph with
  | some g => if g.region = region then g
    else RoadGraph.create s region .walker r.capacity r.capacity_pos r.readScale
  | none => RoadGraph.create s region .walker r.capacity r.capacity_pos r.readScale

/-- Bound on the steps of a walk search: far beyond any search that ends, so only a search that
does not end reaches it. -/
def searchFuel : Nat := Nat.pow 2 62

/-- The walk on graph `g` between the snapped start and finish. -/
def walkOn (g : RoadGraph) (start finish : Point) (radius : Float) (m : Monitor) :
    Except Outcome Route × Monitor × RoadGraph :=
  let (srcs, g) := (RoadGraph.snap start radius).run g
  match srcs.head? with
  | none => (.error .startPointNotFound, m, g)
  | some src =>
    let (dsts, g) := (RoadGraph.snap finish radius).run g
    match dsts.head? with
    | none => (.error .endPointNotFound, m, g)
    | some dst =>
      let ((found, m), g) :=
        if src.pos = dst.pos then
          ((.ok (some [if src.t ≤ dst.t then src.pos else src.pos.reversed]), m), g)
        else (RoadGraph.walkSearch src dst m searchFuel).run g
      match found with
      | .error o => (.error o, m, g)
      | .ok none => (.error .routeNotFound, m, g)
      | .ok (some path) =>
        let (built, g) := (RoadGraph.pathRouteBetween path src.point dst.point .pedestrian).run g
        match built with
        | .error _ => (.error .routeNotFound, m, g)
        | .ok route => (route.requireValid, m, g)

/-- Plans a walk from `start` to `finish`. -/
def plan (r : WalkRouter) (a : Atlas) (start finish : Point) (m : Monitor) :
    Plan × Monitor × WalkRouter :=
  let done (p : Plan) (m : Monitor) (r : WalkRouter) : Plan × Monitor × WalkRouter :=
    ({ p with visited := m.visited, cache := r.graph.map fun g => (g.accesses, g.misses) }, m, r)
  match a.regions.fileAt start, a.regions.fileAt finish with
  | none, _ => done (.failure .startPointNotFound) m r
  | some _, none => done (.failure .endPointNotFound) m r
  | some sf, some ff =>
    if sf ≠ ff then done (.failure .pointsInDifferentRegion) m r
    else
      match (a.catalog.find? sf).map LocalFile.region |>.filter a.store.hasRegion with
      | none => done { Plan.failure .routeFileNotExist with absent := [sf] } m r
      | some region =>
        let g := r.graphFor a.store region
        let (res, m, g) := walkOn g start finish r.snapRadius m
        let r := { r with graph := some g }
        match res with
        | .error o => done (.failure o) m r
        | .ok route => done { outcome := .noError, route := some route } m r

end WalkRouter

end Wayfinder
