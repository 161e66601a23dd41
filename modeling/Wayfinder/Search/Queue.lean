/-!
# Priority queues

A queue holds its entries sorted by a strict order `lt`, smallest first; an entry is placed after
every entry it is not smaller than, so equal entries leave in the order they came. Searches take
the smallest entry first.
-/

namespace Wayfinder

/-- Entries sorted by `lt`, smallest first. -/
structure Queue (α : Type) where
  items : List α
deriving Inhabited

namespace Queue

variable {α : Type}

/-- The empty queue. -/
def empty : Queue α := ⟨[]⟩

/-- Places `a` before the first entry that is greater than it. -/
def place (lt : α → α → Bool) (a : α) : List α → List α
  | [] => [a]
  | b :: rest => if lt a b then a :: b :: rest else b :: place lt a rest

/-- Adds an entry. -/
def push (lt : α → α → Bool) (q : Queue α) (a : α) : Queue α := ⟨place lt a q.items⟩

/-- The smallest entry. -/
def peek? (q : Queue α) : Option α := q.items.head?

/-- The smallest entry and the queue without it. -/
def pop? (q : Queue α) : Option (α × Queue α) :=
  match q.items with
  | [] => none
  | a :: rest => some (a, ⟨rest⟩)

/-- Number of entries. -/
def size (q : Queue α) : Nat := q.items.length

/-- Lexicographic order on pairs of naturals, the order of search entries `(cost, node)`. -/
def pairLt (a b : Nat × Nat) : Bool := a.1 < b.1 || (a.1 = b.1 && a.2 < b.2)

end Queue

end Wayfinder
