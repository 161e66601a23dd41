import Wayfinder.Index.Basic
import Wayfinder.Router.Monitor

/-!
# Queries on a routing index

A query searches upward from both ends at once: from the start nodes along the upward links and
from the finish nodes along the downward ones, each side seeded with several nodes and their costs.
The side whose cheapest queued entry is cheaper moves (the start side on a tie); a node reached
from both sides is a meeting point, and the search stops when no queued entry is cheaper than the
best meeting cost. Every entry taken from a queue is one step for the monitor.

The path is read back from the meeting node along the recorded links of both sides, and every
shortcut is replaced by the two links it bypasses, recursively, so the path consists of road links
only.
-/

namespace Wayfinder

/-- A path through the junction graph: its cost, its nodes and the feature of each link. -/
structure IndexPath where
  cost : Nat
  nodes : List Nat
  features : List Nat
deriving Inhabited

/-- The cost standing for "no path yet". -/
def unreached : Nat := Nat.pow 2 64 - 1

/-- Cost and incoming link of each node reached by one side of a search; `none` marks a seed. -/
abbrev Reached := Array (Option (Nat × Option Nat))

/-- One side of a bidirectional search. -/
structure Side where
  reached : Reached
  queue : Queue (Nat × Nat)
deriving Inhabited

namespace Side

/-- Cost at which `n` was reached. -/
def cost? (s : Side) (n : Nat) : Option Nat := (s.reached.getD n none).map Prod.fst

/-- Records `n` at `cost` through `via` if that is cheaper than before. -/
def offer (s : Side) (n cost : Nat) (via : Option Nat) : Side :=
  match s.cost? n with
  | some d => if cost < d then ⟨s.reached.setIfInBounds n (some (cost, via)), s.queue.push Queue.pairLt (cost, n)⟩ else s
  | none => ⟨s.reached.setIfInBounds n (some (cost, via)), s.queue.push Queue.pairLt (cost, n)⟩

/-- The side seeded with `seeds`. -/
def seeded (n : Nat) (seeds : List (Nat × Nat)) : Side :=
  seeds.foldl (fun s (node, cost) => s.offer node cost none) ⟨Array.replicate n none, Queue.empty⟩

/-- Cost of the cheapest queued entry. -/
def top (s : Side) : Nat := (s.queue.peek?.map Prod.fst).getD unreached

end Side

/-- The state of a bidirectional search. -/
structure Meeting where
  fwd : Side
  bwd : Side
  best : Nat
  meet : Option Nat
deriving Inhabited

namespace RoutingIndex

/-- Takes the queued entry `(cost, node)` of one side: records a meeting, then relaxes the node's
links in `csr`. -/
def settle (csr : Csr) (own other : Side) (best : Nat) (meet : Option Nat) (cost node : Nat) :
    Side × Nat × Option Nat :=
  if (own.cost? node).any (cost > ·) then (own, best, meet)
  else
    let (best, meet) := match other.cost? node with
      | some d => if cost + d < best then (cost + d, some node) else (best, meet)
      | none => (best, meet)
    let own := (csr.linksOf node).foldl (fun s i =>
      s.offer (csr.head.getD i 0) (cost + csr.cost.getD i 0) (some i)) own
    (own, best, meet)

/-- The search loop, with `fuel` for the number of queue entries taken. -/
def searchLoop (x : RoutingIndex) : Nat → Meeting → Monitor → Except Outcome Meeting × Monitor
  | 0, st, m => (.ok st, m)
  | fuel + 1, st, m =>
    let topF := st.fwd.top
    let topB := st.bwd.top
    if min topF topB ≥ st.best then (.ok st, m)
    else if topF ≤ topB then
      match st.fwd.queue.pop? with
      | none => (.ok st, m)
      | some ((cost, node), q) =>
        let m := m.tick
        match m.stopNow? with
        | some o => (.error o, m)
        | none =>
          let (fwd, best, meet) := settle x.up { st.fwd with queue := q } st.bwd st.best st.meet cost node
          searchLoop x fuel ⟨fwd, st.bwd, best, meet⟩ m
    else
      match st.bwd.queue.pop? with
      | none => (.ok st, m)
      | some ((cost, node), q) =>
        let m := m.tick
        match m.stopNow? with
        | some o => (.error o, m)
        | none =>
          let (bwd, best, meet) := settle x.down { st.bwd with queue := q } st.fwd st.best st.meet cost node
          searchLoop x fuel ⟨st.fwd, bwd, best, meet⟩ m

/-- Walks recorded links back from `n` on the start side: the links in path order and the node
where the walk began. -/
def walkUp (x : RoutingIndex) (side : Side) : Nat → Nat → List (Nat × Nat × Nat) → Nat × List (Nat × Nat × Nat)
  | 0, n, acc => (n, acc)
  | fuel + 1, n, acc =>
    match side.reached.getD n none with
    | some (_, some i) =>
      let src := x.up.owner i
      walkUp x side fuel src ((src, n, i) :: acc)
    | _ => (n, acc)

/-- Walks recorded links on from `n` on the finish side, in path order. -/
def walkDown (x : RoutingIndex) (side : Side) : Nat → Nat → List (Nat × Nat × Nat)
  | 0, _ => []
  | fuel + 1, n =>
    match side.reached.getD n none with
    | some (_, some i) =>
      let dst := x.down.owner i
      (n, dst, i) :: walkDown x side fuel dst
    | _ => []

/-- The stored link from `a` to `b`: its bypassed node and its feature. -/
def linkBetween (x : RoutingIndex) (a b : Nat) : Option (Option Nat × Nat) :=
  if x.rank.getD b 0 > x.rank.getD a 0 then
    (x.up.find a b).map fun i => (x.up.mid.getD i none, x.up.feature.getD i 0)
  else
    (x.down.find b a).map fun i => (x.down.mid.getD i none, x.down.feature.getD i 0)

/-- The road links that the link `a → b` stands for, as `(a, b, feature)`; `none` if a shortcut
cannot be resolved within `fuel` levels. -/
def unpack (x : RoutingIndex) : Nat → Nat → Nat → Option Nat → Nat → Option (List (Nat × Nat × Nat))
  | _, a, b, none, f => some [(a, b, f)]
  | 0, _, _, some _, _ => none
  | fuel + 1, a, b, some m, _ => do
    let (m1, f1) ← x.linkBetween a m
    let (m2, f2) ← x.linkBetween m b
    let left ← x.unpack fuel a m m1 f1
    let right ← x.unpack fuel m b m2 f2
    return left ++ right

/-- The cheapest path from any of `sources` to any of `targets`, each with a cost already spent;
`none` when they are not connected, and the monitor's outcome when it stops the search. -/
def queryBetween (x : RoutingIndex) (sources targets : List (Nat × Nat)) (m : Monitor) :
    Except Outcome (Option IndexPath) × Monitor :=
  let n := x.nodeCount
  let start : Meeting := ⟨Side.seeded n sources, Side.seeded n targets, unreached, none⟩
  let fuel := 2 * (sources.length + targets.length + x.up.size + x.down.size + n) + 2
  match x.searchLoop fuel start m with
  | (.error o, m) => (.error o, m)
  | (.ok st, m) =>
    match st.meet with
    | none => (.ok none, m)
    | some meet =>
      let (root, ups) := x.walkUp st.fwd (n + 1) meet []
      let downs := x.walkDown st.bwd (n + 1) meet
      let links := ups.map (fun (a, b, i) => (a, b, x.up.mid.getD i none, x.up.feature.getD i 0)) ++
        downs.map (fun (a, b, i) => (a, b, x.down.mid.getD i none, x.down.feature.getD i 0))
      match links.mapM (fun (a, b, mid, f) => x.unpack (n + 1) a b mid f) with
      | none => (.error .internalError, m)
      | some legs =>
        let legs := legs.flatten
        (.ok (some ⟨st.best, root :: legs.map (·.2.1), legs.map (·.2.2)⟩), m)

/-- The cheapest path from node `s` to node `t`. -/
def query (x : RoutingIndex) (s t : Nat) (m : Monitor) : Except Outcome (Option IndexPath) × Monitor :=
  if s = t then (.ok (some ⟨0, [s], []⟩), m) else x.queryBetween [(s, 0)] [(t, 0)] m

end RoutingIndex

end Wayfinder
