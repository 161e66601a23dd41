import Wayfinder.Spatial.Tree
import Wayfinder.Search.Heap

/-!
# Querying box trees

`within` lists the items whose box meets a query box. It walks the tree from a stack that starts
with the top members: a member taken from the top of the stack is answered if it is an item that
meets the box, or has its members pushed if it is a group whose box meets it. So the members of a
group come last first, and nothing is found when the top box does not meet the query.

`nearest` finds an item nearest to a point by the squared distances that the caller gives for
items and that `Box.distance2` gives for groups. Candidates wait in a heap, nearest on top; a
member is only admitted when it is not farther than the smallest `Box.minMaxDistance2` of the
members admitted before it, which is also lowered as members are admitted. The first item taken
from the heap is the answer. When that search finds nothing (a NaN can block every admission),
the search is run again admitting every member.
-/

namespace Wayfinder

namespace SpatialTree

variable {α : Type} [Bounded α]

mutual

/-- The items under a member whose box meets `q`. -/
def hitsOf (q : Box) : SpatialNode α → List α
  | .leaf x => if (Bounded.bounds x).meets q then [x] else []
  | .group b cs => if q.meets b then hitsIn q cs else []

/-- The items under a list of members whose box meets `q`, the members taken last first. -/
def hitsIn (q : Box) : List (SpatialNode α) → List α
  | [] => []
  | c :: cs => hitsIn q cs ++ hitsOf q c

end

/-- The items whose box meets `q`, in the order of the walk. -/
def within (t : SpatialTree α) (q : Box) : List α :=
  if !t.children.isEmpty && q.meets t.box then hitsIn q t.children else []

mutual

/-- Number of members under a member, itself included. -/
def sizeOf : SpatialNode α → Nat
  | .leaf _ => 1
  | .group _ cs => 1 + sizeIn cs

/-- Number of members under a list of members. -/
def sizeIn : List (SpatialNode α) → Nat
  | [] => 0
  | c :: cs => sizeOf c + sizeIn cs

end

/-- A member waiting in the search, with its squared distance. -/
structure Waiting (α : Type) where
  node : SpatialNode α
  distance : Float
deriving Inhabited

/-- The heap order of waiting members: the nearer one is the larger. -/
def Waiting.le (a b : Waiting α) : Bool := b.distance ≤ a.distance

/-- The squared distance of a member from `p`. -/
def distanceOf (dist : α → Float) (p : Point) : SpatialNode α → Float
  | .leaf x => dist x
  | .group b _ => b.distance2 p

/-- Admits the members `cs` that are not farther than the bound, lowering the bound with each. -/
def offer (dist : α → Float) (p : Point) (st : Heap (Waiting α) × Float)
    (cs : List (SpatialNode α)) : Heap (Waiting α) × Float :=
  cs.foldl (fun (h, bound) c =>
    let d := distanceOf dist p c
    if d ≤ bound then (h.push Waiting.le ⟨c, d⟩, Box.lower bound (c.box.minMaxDistance2 p))
    else (h, bound)) st

/-- Takes members from the heap until an item comes up, opening groups with `offer`; `fuel`
bounds the members taken. -/
def pruned (dist : α → Float) (p : Point) : Nat → Heap (Waiting α) × Float → Option α
  | 0, _ => none
  | fuel + 1, (h, bound) =>
    match h.pop Waiting.le with
    | none => none
    | some (⟨.leaf x, _⟩, _) => some x
    | some (⟨.group _ cs, _⟩, h) => pruned dist p fuel (offer dist p (h, bound) cs)

/-- Takes members from the heap until an item comes up, opening groups in full. -/
def exhaustive (dist : α → Float) (p : Point) : Nat → Heap (Waiting α) → Option α
  | 0, _ => none
  | fuel + 1, h =>
    match h.pop Waiting.le with
    | none => none
    | some (⟨.leaf x, _⟩, _) => some x
    | some (⟨.group _ cs, _⟩, h) =>
      exhaustive dist p fuel (cs.foldl (fun h c => h.push Waiting.le ⟨c, distanceOf dist p c⟩) h)

/-- An item nearest to `p` under the squared distance `dist`, `none` for an empty tree. -/
def nearest (t : SpatialTree α) (dist : α → Float) (p : Point) : Option α :=
  if t.children.isEmpty then none
  else
    let fuel := sizeIn t.children
    match pruned dist p fuel (offer dist p (Heap.empty, Box.maxFinite) t.children) with
    | some x => some x
    | none =>
      exhaustive dist p fuel
        (t.children.foldl (fun h c => h.push Waiting.le ⟨c, distanceOf dist p c⟩) Heap.empty)

end SpatialTree

end Wayfinder
