import Wayfinder.Geo.Point
import Wayfinder.Search.Queue

/-!
# Contracting a junction graph

A routing index starts from the junction graph of a region: nodes are road points, merged when
their coordinates agree to `1e-7` degrees, and links join consecutive points of a road, weighted by
travel time in milliseconds. Between two nodes only the cheapest link is kept.

Contraction removes the nodes one by one, cheapest first by priority: the number of shortcuts its
removal adds, less the links it removes, plus the number of its neighbours removed before it.
Priorities are refreshed lazily: a node whose priority has grown since it was queued goes back into
the queue. Removing `v` adds a shortcut `u → w` for each pair of links `u → v → w` whose cost is
not matched by a witness path from `u` avoiding `v`, found by a search of at most
`witnessSettleLimit` nodes. Costs add up to at most the largest 32-bit word.
-/

namespace Wayfinder

/-- The largest link cost; sums of costs stop there. -/
def costCap : Nat := Nat.pow 2 32 - 1

/-- Sum of two costs, capped at `costCap`. -/
def addCost (a b : Nat) : Nat := min (a + b) costCap

/-- A directed link: its other end, its cost in milliseconds, the node it bypasses when it is a
shortcut, and the feature it runs along. -/
structure Link where
  other : Nat
  cost : Nat
  mid : Option Nat
  feature : Nat
deriving Inhabited, Repr, DecidableEq

/-- Grid step, degrees, on which road points are merged into nodes. -/
def nodeQuantum : Float := 1e-7

/-- Most nodes a witness search settles. -/
def witnessSettleLimit : Nat := 256

/-- The junction graph during contraction. -/
structure Contractor where
  pos : Array Point
  out : Array (Array Link)
  inc : Array (Array Link)
  contracted : Array Bool
  deleted : Array Int
  /-- Nodes by their point on the merging grid. -/
  keys : List ((Int × Int) × Nat)
deriving Inhabited

namespace Contractor

/-- The graph without nodes. -/
def empty : Contractor := ⟨#[], #[], #[], #[], #[], []⟩

/-- The point of the merging grid nearest to `p`. -/
def gridKey (p : Point) : Int × Int :=
  ((Float.round (p.lat / nodeQuantum)).toInt64.toInt, (Float.round (p.lon / nodeQuantum)).toInt64.toInt)

/-- The node of `p`, added when no node has its grid point. -/
def intern (g : Contractor) (p : Point) : Nat × Contractor :=
  let key := gridKey p
  match g.keys.find? (·.1 = key) with
  | some (_, n) => (n, g)
  | none =>
    let n := g.pos.size
    (n, { pos := g.pos.push p, out := g.out.push #[], inc := g.inc.push #[],
          contracted := g.contracted.push false, deleted := g.deleted.push 0,
          keys := (key, n) :: g.keys })

/-- Whether node `v` is contracted. -/
def isContracted (g : Contractor) (v : Nat) : Bool := g.contracted.getD v false

/-- The links leaving `v`. -/
def outOf (g : Contractor) (v : Nat) : Array Link := g.out.getD v #[]

/-- The links entering `v`, each with its source as `other`. -/
def incOf (g : Contractor) (v : Nat) : Array Link := g.inc.getD v #[]

/-- Number of links. -/
def linkCount (g : Contractor) : Nat := g.out.foldl (fun acc ls => acc + ls.size) 0

/-- Adds the link `src → dst`, or lowers the cost of the one present if `cost` is smaller. -/
def addLink (g : Contractor) (src dst cost : Nat) (mid : Option Nat) (feature : Nat) :
    Contractor :=
  let outs := g.outOf src
  match outs.findIdx? (·.other = dst) with
  | some k =>
    if cost < (outs.getD k default).cost then
      let incs := g.incOf dst
      let inc := match incs.findIdx? (·.other = src) with
        | some r => g.inc.modify dst fun ls => ls.modify r fun _ => ⟨src, cost, mid, feature⟩
        | none => g.inc
      { g with out := g.out.modify src (fun ls => ls.modify k fun _ => ⟨dst, cost, mid, feature⟩),
               inc := inc }
    else g
  | none =>
    { g with out := g.out.modify src (·.push ⟨dst, cost, mid, feature⟩),
             inc := g.inc.modify dst (·.push ⟨src, cost, mid, feature⟩) }

/-- One relaxation of a witness search from a node reached at `cost`. -/
def witnessRelax (g : Contractor) (avoid cost : Nat)
    (acc : Array (Option Nat) × Queue (Nat × Nat)) (l : Link) :
    Array (Option Nat) × Queue (Nat × Nat) :=
  let (dist, q) := acc
  if l.other = avoid || g.isContracted l.other then acc
  else
    let c := addCost cost l.cost
    match dist.getD l.other none with
    | some d => if c < d then (dist.setIfInBounds l.other (some c), q.push Queue.pairLt (c, l.other)) else acc
    | none => (dist.setIfInBounds l.other (some c), q.push Queue.pairLt (c, l.other))

/-- The witness search loop, with `fuel` for the number of queue entries taken. -/
def witnessLoop (g : Contractor) (avoid maxCost : Nat) :
    Nat → Array (Option Nat) → Queue (Nat × Nat) → Nat → Array (Option Nat)
  | 0, dist, _, _ => dist
  | fuel + 1, dist, q, settled =>
    match q.pop? with
    | none => dist
    | some ((cost, node), q) =>
      if cost > maxCost || settled ≥ witnessSettleLimit then dist
      else
        match dist.getD node none with
        | some d =>
          if cost > d then witnessLoop g avoid maxCost fuel dist q settled
          else
            let (dist, q) := (g.outOf node).foldl (g.witnessRelax avoid cost) (dist, q)
            witnessLoop g avoid maxCost fuel dist q (settled + 1)
        | none =>
          let (dist, q) := (g.outOf node).foldl (g.witnessRelax avoid cost) (dist, q)
          witnessLoop g avoid maxCost fuel dist q (settled + 1)

/-- Costs of paths from `source` that avoid `avoid` and contracted nodes, as far as a search up to
cost `maxCost` and at most `witnessSettleLimit` settled nodes finds them. -/
def witness (g : Contractor) (source avoid maxCost : Nat) : Array (Option Nat) :=
  let dist := (Array.replicate g.pos.size (none : Option Nat)).setIfInBounds source (some 0)
  let fuel := (witnessSettleLimit + 1) * (g.linkCount + 2)
  g.witnessLoop avoid maxCost fuel dist (Queue.empty.push Queue.pairLt (0, source)) 0

/-- The shortcuts `(u, w, cost)` that removing `v` needs. -/
def shortcuts (g : Contractor) (v : Nat) : List (Nat × Nat × Nat) :=
  (g.incOf v).toList.flatMap fun lIn =>
    let u := lIn.other
    if g.isContracted u || u = v then []
    else
      let targets := ((g.outOf v).toList.filter fun l =>
        !g.isContracted l.other && l.other ≠ u && l.other ≠ v).map fun l =>
          (l.other, addCost lIn.cost l.cost)
      match (targets.map Prod.snd).max? with
      | none => []
      | some mx =>
        let found := g.witness u v mx
        targets.filterMap fun (w, via) =>
          match found.getD w none with
          | some d => if d > via then some (u, w, via) else none
          | none => some (u, w, via)

/-- Contraction priority of `v`: shortcuts needed, less live links removed, plus neighbours
already removed. -/
def priority (g : Contractor) (v : Nat) : Int :=
  let live (l : Link) : Bool := !g.isContracted l.other
  let removed := ((g.outOf v).filter live).size + ((g.incOf v).filter live).size
  ((g.shortcuts v).length : Int) - removed + g.deleted.getD v 0

/-- Order of contraction queue entries `(priority, node)`. -/
def entryLt (a b : Int × Nat) : Bool := a.1 < b.1 || (a.1 = b.1 && a.2 < b.2)

/-- Removes node `v`, adding its shortcuts. -/
def removeNode (g : Contractor) (v : Nat) : Contractor :=
  let g := (g.shortcuts v).foldl (fun g (u, w, c) => g.addLink u w c (some v) costCap) g
  let g := { g with contracted := g.contracted.setIfInBounds v true }
  let neighbours := ((g.outOf v).toList ++ (g.incOf v).toList).map Link.other
  { g with deleted := neighbours.foldl (fun d u => d.modify u (· + 1)) g.deleted }

/-- The contraction loop, with `fuel` for the number of queue entries taken; returns the graph
with its shortcuts and the rank of every node. -/
def contractLoop : Nat → Contractor → Queue (Int × Nat) → Array Nat → Nat → Contractor × Array Nat
  | 0, g, _, rank, _ => (g, rank)
  | fuel + 1, g, q, rank, next =>
    match q.pop? with
    | none => (g, rank)
    | some ((prio, v), q) =>
      if g.isContracted v then contractLoop fuel g q rank next
      else
        let fresh := g.priority v
        if fresh > prio then contractLoop fuel g (q.push entryLt (fresh, v)) rank next
        else contractLoop fuel (g.removeNode v) q (rank.setIfInBounds v next) (next + 1)

/-- Contracts every node; returns the graph with its shortcuts and the rank of every node. -/
def contract (g : Contractor) : Contractor × Array Nat :=
  let n := g.pos.size
  let q := (List.range n).foldl (fun q v => q.push entryLt (g.priority v, v)) Queue.empty
  contractLoop ((n + 1) * (n + 1) + 1) g q (Array.replicate n 0) 0

end Contractor

end Wayfinder
