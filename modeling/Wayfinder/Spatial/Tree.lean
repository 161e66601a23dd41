import Wayfinder.Geo.Box
import Wayfinder.Spatial.Select

/-!
# Box trees

A box tree groups items with boxes into nested groups of at most six, each group carrying the
box that covers its members. It is built in one go from a list of items:

* at most six items form a single group;
* otherwise the items are cut into slabs by the lower longitude of their boxes and each slab into
  clusters by the lower latitude, `a` pieces per axis where `a * a` is at least the number of
  subtrees of a full tree of the needed height, `⌈n / 6 ^ (h - 1)⌉` for the least `h` with
  `6 ^ h ≥ n`; each cluster becomes a subtree;
* a cut takes slabs of `⌈m / a⌉` items (`m` the items of the piece) from the front of the piece
  with `selectNth`, the rest forming the last slab;
* the clusters become children last slab first: the pieces wait on a stack, the last one cut is
  the next one cut further or turned into a subtree.

The order of the items going in, and the moves of the selection, decide where every item ends,
and with NaN coordinates they decide which boxes the groups carry (see `Box.merge`).
-/

namespace Wayfinder

/-- Items that have a box. -/
class Bounded (α : Type) where
  bounds : α → Box

/-- A member of a box tree: an item, or a group of members with the box covering them. -/
inductive SpatialNode (α : Type) where
  | leaf (x : α)
  | group (box : Box) (children : List (SpatialNode α))
deriving Inhabited

/-- A box tree: the top group's box and members. -/
structure SpatialTree (α : Type) where
  box : Box
  children : List (SpatialNode α)
deriving Inhabited

namespace SpatialNode

variable {α : Type} [Bounded α]

/-- The box of a member. -/
def box : SpatialNode α → Box
  | .leaf x => Bounded.bounds x
  | .group b _ => b

end SpatialNode

namespace SpatialTree

variable {α : Type} [Inhabited α] [Bounded α]

/-- Most members of a group. -/
def capacity : Nat := 6

/-- The least `h` with `6 ^ h ≥ n`, searched up to `n`. -/
def height (n : Nat) : Nat :=
  ((List.range (n + 1)).find? fun h => n ≤ Nat.pow capacity h).getD n

/-- Pieces per axis for `n` items: the least `a` with `a * a` at least the number of full
subtrees that `n` items need. -/
def piecesPerAxis (n : Nat) : Nat :=
  let sub := Nat.pow capacity (height n - 1)
  let clusters := (n + sub - 1) / sub
  ((List.range (clusters + 1)).find? fun a => clusters ≤ a * a).getD clusters

/-- The lower corner coordinate that cuts along `axis`: latitude for 0, longitude otherwise. -/
def key (axis : Nat) (x : α) : Float :=
  let b := Bounded.bounds x
  if axis = 0 then b.lo.lat else b.lo.lon

/-- Cuts `xs` along `axis` into slabs of `size` items taken from the front, the rest last. -/
def slabs (axis size : Nat) : Nat → Array α → List (Array α)
  | 0, xs => [xs]
  | fuel + 1, xs =>
    if xs.isEmpty then []
    else if xs.size ≤ size then [xs]
    else
      let ys := selectNth (fun a b => key axis a < key axis b) xs size
      ys.extract 0 size :: slabs axis size fuel (ys.extract size ys.size)

/-- The clusters of `xs` that still has `axis` axes to be cut along, in the order they become
children. -/
def clusters (per : Nat) : Nat → Array α → List (Array α)
  | 0, xs => [xs]
  | axis + 1, xs =>
    let size := (xs.size + per - 1) / per
    (slabs axis size xs.size xs).reverse.flatMap (clusters per axis)

/-- The members of a group of the items `xs`, cut into subtrees while more than six; `fuel`
bounds the height. -/
def members : Nat → Array α → List (SpatialNode α)
  | 0, xs => xs.toList.map .leaf
  | fuel + 1, xs =>
    if xs.size ≤ capacity then xs.toList.map .leaf
    else (clusters (piecesPerAxis xs.size) 2 xs).map fun c =>
      let cs := members fuel c
      .group (Box.cover (cs.map SpatialNode.box)) cs

/-- The tree of `items`, in the order given. -/
def load (items : List α) : SpatialTree α :=
  let cs := members items.length items.toArray
  ⟨Box.cover (cs.map SpatialNode.box), cs⟩

end SpatialTree

end Wayfinder
