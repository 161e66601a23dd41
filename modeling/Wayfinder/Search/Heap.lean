/-!
# Binary heaps

A binary heap keeps its entries in an array in which no entry is above its parent, under a
preorder `le`; the top is at index 0 and the children of index `i` are at `2i + 1` and `2i + 2`.
Unlike a sorted queue, which of several equal entries leaves first depends on the exact moves
the heap makes, so those moves are fixed here:

* a push appends the entry and moves it up while it is not `le` its parent;
* a pop takes the top, puts the last entry in the freed slot, walks that slot down to a leaf
  along the larger child (the right one when the two are equal under `le`), and then moves the
  entry up again from there.
-/

namespace Wayfinder

/-- Entries kept as a binary heap, largest first under the preorder the operations are given. -/
structure Heap (α : Type) where
  items : Array α
deriving Inhabited

namespace Heap

variable {α : Type} [Inhabited α] (le : α → α → Bool)

/-- The empty heap. -/
def empty : Heap α := ⟨#[]⟩

/-- Places `e` at the free slot `pos` or above it: parents that `e` is not `le` move down into
the slot, up to index `start`. -/
def siftUp (start : Nat) (e : α) (xs : Array α) (pos : Nat) : Array α :=
  if start < pos then
    let parent := (pos - 1) / 2
    let p := xs[parent]!
    if le e p then xs.set! pos e
    else siftUp start e (xs.set! pos p) parent
  else xs.set! pos e
termination_by pos
decreasing_by omega

/-- Walks the free slot `hole` down to a leaf of a heap of `n` entries, moving the larger child
up at each step; answers the array and where the slot ended. -/
def siftDown (n : Nat) (xs : Array α) (hole : Nat) : Array α × Nat :=
  let child := 2 * hole + 1
  if child + 1 < n then
    if le xs[child]! xs[child + 1]! then siftDown n (xs.set! hole xs[child + 1]!) (child + 1)
    else siftDown n (xs.set! hole xs[child]!) child
  else if child + 1 = n then (xs.set! hole xs[child]!, child)
  else (xs, hole)
termination_by n - hole
decreasing_by all_goals omega

/-- Adds an entry. -/
def push (h : Heap α) (x : α) : Heap α :=
  ⟨siftUp le 0 x (h.items.push x) h.items.size⟩

/-- The top entry and the heap without it. -/
def pop (h : Heap α) : Option (α × Heap α) :=
  match h.items.back? with
  | none => none
  | some last =>
    let rest := h.items.pop
    if rest.isEmpty then some (last, ⟨rest⟩)
    else
      let (xs, hole) := siftDown le rest.size rest 0
      some (rest[0]!, ⟨siftUp le 0 last xs hole⟩)

/-- Number of entries. -/
def size (h : Heap α) : Nat := h.items.size

end Heap

end Wayfinder
