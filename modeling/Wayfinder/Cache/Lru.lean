import Std.Data.HashMap

/-!
# Least-recently-used caches

A cache holds at most `capacity` entries. The entries live in a slab of slots threaded by a doubly
linked list, ordered from the most to the least recently used; a hash map from key to slot gives
the lookup. Looking an entry up or writing it moves its slot to the front of the list; a peek does
not. Writing a new key into a full cache recycles the slot at the back of the list, the least
recently used, and hands its entry back. Slots are never freed one at a time, so the slab never
grows past the capacity; clearing empties it.

A link that points nowhere is `none`.
-/

namespace Wayfinder

/-- A slot of the slab: an entry and its neighbours in the recency list. -/
structure Lru.Slot (κ : Type) (ν : Type) where
  key : κ
  value : ν
  /-- The slot used just more recently. -/
  prev : Option Nat
  /-- The slot used just less recently. -/
  next : Option Nat

/-- A bounded map whose entries are ordered by recency of use. -/
structure Lru (κ : Type) (ν : Type) [BEq κ] [Hashable κ] where
  capacity : Nat
  capacity_pos : 0 < capacity
  map : Std.HashMap κ Nat
  slots : Array (Lru.Slot κ ν)
  /-- The most recently used slot. -/
  head : Option Nat
  /-- The least recently used slot, the next to be recycled. -/
  tail : Option Nat

namespace Lru

variable {κ ν : Type} [BEq κ] [Hashable κ]

/-- The empty cache of a positive capacity. -/
def empty (capacity : Nat) (h : 0 < capacity) : Lru κ ν := ⟨capacity, h, {}, #[], none, none⟩

/-- Number of entries. -/
def size (c : Lru κ ν) : Nat := c.map.size

/-- Whether the cache holds no entry. -/
def isEmpty (c : Lru κ ν) : Bool := c.map.isEmpty

/-- Whether `k` has an entry; the order is kept. -/
def contains (c : Lru κ ν) (k : κ) : Bool := c.map.contains k

/-- The value of `k`, the order kept. -/
def peek (c : Lru κ ν) (k : κ) : Option ν := c.map[k]?.bind fun i => c.slots[i]?.map Slot.value

/-- Takes slot `i` out of the list, joining its neighbours. -/
def unlink (c : Lru κ ν) (i : Nat) : Lru κ ν :=
  match c.slots[i]? with
  | none => c
  | some s =>
    let c := match s.prev with
      | none => { c with head := s.next }
      | some p => { c with slots := c.slots.modify p fun t => { t with next := s.next } }
    let c := match s.next with
      | none => { c with tail := s.prev }
      | some n => { c with slots := c.slots.modify n fun t => { t with prev := s.prev } }
    { c with slots := c.slots.modify i fun t => { t with prev := none, next := none } }

/-- Puts slot `i` at the front of the list. -/
def linkFront (c : Lru κ ν) (i : Nat) : Lru κ ν :=
  let slots := c.slots.modify i fun t => { t with prev := none, next := c.head }
  let slots := match c.head with
    | some h => slots.modify h fun t => { t with prev := some i }
    | none => slots
  { c with slots, head := some i, tail := c.tail.or (some i) }

/-- Makes slot `i` the most recently used. -/
def promote (c : Lru κ ν) (i : Nat) : Lru κ ν :=
  if c.head = some i then c else (c.unlink i).linkFront i

/-- The value of `k`, whose entry becomes the most recent. -/
def get (c : Lru κ ν) (k : κ) : Option ν × Lru κ ν :=
  match c.map[k]? with
  | none => (none, c)
  | some i =>
    let c := c.promote i
    (c.slots[i]?.map Slot.value, c)

/-- Writes `v` under `k` as the most recent entry. A new key in a full cache takes the slot of the
least recently used entry, which is returned. -/
def insert (c : Lru κ ν) (k : κ) (v : ν) : Option (κ × ν) × Lru κ ν :=
  match c.map[k]? with
  | some i => (none, ({ c with slots := c.slots.modify i fun t => { t with value := v } }).promote i)
  | none =>
    if c.slots.size < c.capacity then
      let i := c.slots.size
      (none, ({ c with slots := c.slots.push ⟨k, v, none, none⟩, map := c.map.insert k i }).linkFront i)
    else
      match c.tail with
      | none => (none, c)
      | some i =>
        let c := c.unlink i
        match c.slots[i]? with
        | none => (none, c)
        | some old =>
          let c := { c with slots := c.slots.modify i fun t => { t with key := k, value := v },
                            map := (c.map.erase old.key).insert k i }
          (some (old.key, old.value), c.linkFront i)

/-- Drops every entry; the capacity stays. -/
def clear (c : Lru κ ν) : Lru κ ν := { c with map := {}, slots := #[], head := none, tail := none }

/-- The keys from slot `cur` on, following the list, at most `fuel` of them. -/
def keysFrom (slots : Array (Slot κ ν)) : Option Nat → Nat → List κ
  | none, _ => []
  | some _, 0 => []
  | some i, fuel + 1 =>
    match slots[i]? with
    | none => []
    | some s => s.key :: keysFrom slots s.next fuel

/-- Keys from the most to the least recently used; the list visits each slot once. -/
def keys (c : Lru κ ν) : List κ := keysFrom c.slots c.head c.slots.size

end Lru

end Wayfinder
