import Wayfinder.Proofs.Cache.Recency

/-!
# Sequences of calls on a cache

A program talks to a cache by a sequence of calls: writes, lookups, peeks, membership tests,
clearing, and the size, emptiness and key listing. Run from an empty cache, every sequence gets
from the cache the replies its recency list gives, and leaves a cache that holds that list. Each
state reached is sound: it holds at most `capacity` entries under distinct keys, the walk along
`next` from `head` visits every slot of the slab once, the walk back along `prev` from `tail`
visits them in the opposite order, and the map sends each key to the slot that holds it.
-/

namespace Wayfinder

namespace Lru

/-- A call a program makes on a cache. -/
inductive Call (κ : Type) (ν : Type) where
  | insert (k : κ) (v : ν)
  | get (k : κ)
  | peek (k : κ)
  | contains (k : κ)
  | clear
  | len
  | isEmpty
  | keys
  deriving DecidableEq

/-- What a call returns. -/
inductive Reply (κ : Type) (ν : Type) where
  | evicted (e : Option (κ × ν))
  | value (v : Option ν)
  | flag (b : Bool)
  | count (n : Nat)
  | keys (ks : List κ)
  | done
  deriving DecidableEq

end Lru

namespace Recency

variable {κ ν : Type} [BEq κ]

def isEmpty (m : Recency κ ν) : Bool := m.entries.isEmpty

/-- A call on the recency list. -/
def serve (m : Recency κ ν) : Lru.Call κ ν → Lru.Reply κ ν × Recency κ ν
  | .insert k v => ((.evicted (m.insert k v).1), (m.insert k v).2)
  | .get k => (.value (m.get k).1, (m.get k).2)
  | .peek k => (.value (m.peek k), m)
  | .contains k => (.flag (m.contains k), m)
  | .clear => (.done, m.clear)
  | .len => (.count m.size, m)
  | .isEmpty => (.flag m.isEmpty, m)
  | .keys => (.keys m.keys, m)

/-- The replies to a sequence of calls and the list they leave. -/
def run (m : Recency κ ν) : List (Lru.Call κ ν) → List (Lru.Reply κ ν) × Recency κ ν
  | [] => ([], m)
  | call :: calls => ((m.serve call).1 :: ((m.serve call).2.run calls).1, ((m.serve call).2.run calls).2)

-- the lookup of `1` makes `2` the least recently used entry, so the third write evicts `2`
example : ((Recency.empty 2 : Recency Int Int).run
    [.insert 1 10, .insert 2 20, .get 1, .insert 3 30, .keys, .len]).1 =
    [.evicted none, .evicted none, .value (some 10), .evicted (some (2, 20)), .keys [3, 1], .count 2] := by
  decide

end Recency

namespace Lru

variable {κ ν : Type} [BEq κ] [Hashable κ]

/-- A call on the cache. -/
def serve (c : Lru κ ν) : Call κ ν → Reply κ ν × Lru κ ν
  | .insert k v => (.evicted (c.insert k v).1, (c.insert k v).2)
  | .get k => (.value (c.get k).1, (c.get k).2)
  | .peek k => (.value (c.peek k), c)
  | .contains k => (.flag (c.contains k), c)
  | .clear => (.done, c.clear)
  | .len => (.count c.size, c)
  | .isEmpty => (.flag c.isEmpty, c)
  | .keys => (.keys c.keys, c)

/-- The replies to a sequence of calls and the cache they leave. -/
def run (c : Lru κ ν) : List (Call κ ν) → List (Reply κ ν) × Lru κ ν
  | [] => ([], c)
  | call :: calls => ((c.serve call).1 :: ((c.serve call).2.run calls).1, ((c.serve call).2.run calls).2)

/-- A sound cache: at most `capacity` entries, under distinct keys; the walk from `head` along
`next` visits each slot of the slab once, the walk from `tail` along `prev` visits them in the
opposite order, the map sends each key to the slot that holds it, and its keys are those listed. -/
structure Sound (c : Lru κ ν) : Prop where
  size_le : c.size ≤ c.capacity
  keys_nodup : c.keys.Nodup
  forward : (walk c.slots Slot.next c.head c.slots.size).Perm (List.range c.slots.size)
  backward : walk c.slots Slot.prev c.tail c.slots.size = (walk c.slots Slot.next c.head c.slots.size).reverse
  map : ∀ k j, c.map[k]? = some j ↔ c.keyAt j = some k
  contains : ∀ k, c.contains k = true ↔ k ∈ c.keys

theorem Agrees.map {α β : Type} {r : α × Lru κ ν} {m : α × Recency κ ν} (h : Agrees r m) (f : α → β) :
    Agrees (f r.1, r.2) (f m.1, m.2) :=
  ⟨h.tracks, by rw [h.reply], h.recency⟩

namespace Tracks

variable {c : Lru κ ν} {order : List Nat}

theorem isEmpty (h : c.Tracks order) : c.isEmpty = c.recency.isEmpty := by
  rw [Lru.isEmpty, Std.HashMap.isEmpty_eq_size_eq_zero, ← Lru.size, h.size_eq, Recency.isEmpty,
    Recency.size]
  cases c.recency.entries <;> rfl

variable [LawfulBEq κ]

/-- A cache that tracks a list is sound. -/
theorem sound (h : c.Tracks order) : c.Sound := by
  have hf : order.length ≤ c.slots.size := Nat.le_of_eq h.length_eq
  refine ⟨?_, ?_, ?_, ?_, h.map, fun k => ?_⟩
  · rw [Lru.size, h.size, h.length_eq]
    exact h.bounded
  · rw [keys_eq]
    exact h.keys_nodup
  · rw [h.linked.walk_next hf]
    exact h.covers
  · rw [h.linked.walk_next hf, h.linked.walk_prev hf]
  · rw [h.contains, Recency.contains_iff, keys_eq]

/-- One call: the cache answers as its recency list does and keeps tracking a list. -/
theorem serve (h : c.Tracks order) (call : Call κ ν) : Agrees (c.serve call) (c.recency.serve call) := by
  cases call with
  | insert k v => exact (h.insert k v).map Reply.evicted
  | get k => exact (h.get k).map Reply.value
  | peek k => exact ⟨⟨order, h⟩, by rw [Lru.serve, Recency.serve, h.peek], rfl⟩
  | contains k => exact ⟨⟨order, h⟩, by rw [Lru.serve, Recency.serve, h.contains], rfl⟩
  | clear => exact ⟨⟨[], c.clear_tracks⟩, rfl, c.clear_recency⟩
  | len => exact ⟨⟨order, h⟩, by rw [Lru.serve, Recency.serve, h.size_eq], rfl⟩
  | isEmpty => exact ⟨⟨order, h⟩, by rw [Lru.serve, Recency.serve, h.isEmpty], rfl⟩
  | keys => exact ⟨⟨order, h⟩, by rw [Lru.serve, Recency.serve, keys_eq], rfl⟩

/-- A sequence of calls: by induction on it, each call agreeing with the recency list. -/
theorem run (h : c.Tracks order) (calls : List (Call κ ν)) : Agrees (c.run calls) (c.recency.run calls) := by
  induction calls generalizing c order with
  | nil => exact ⟨⟨order, h⟩, rfl, rfl⟩
  | cons call calls ih =>
      obtain ⟨⟨order', ht⟩, hr, hm⟩ := h.serve call
      obtain ⟨hrt, hrr, hrm⟩ := ih ht
      refine ⟨hrt, ?_, ?_⟩
      · rw [Lru.run, Recency.run, hr, hrr, hm]
      · rw [Lru.run, Recency.run, hrm, hm]

end Tracks

/-- From an empty cache, every sequence of calls gets the replies of the recency list and leaves
the cache holding the list the calls leave; every state reached is sound. -/
theorem run_refines_recency [LawfulBEq κ] (capacity : Nat) (hcap : 0 < capacity)
    (calls : List (Call κ ν)) :
    ((Lru.empty capacity hcap).run calls).1 = ((Recency.empty capacity).run calls).1 ∧
      ((Lru.empty capacity hcap).run calls).2.recency = ((Recency.empty capacity).run calls).2 ∧
      ((Lru.empty capacity hcap).run calls).2.Sound := by
  obtain ⟨⟨order, ht⟩, hr, hm⟩ := (empty_tracks capacity hcap).run calls
  rw [empty_recency] at hr hm
  exact ⟨hr, hm, ht.sound⟩

/-- Two writes fill a cache of two, a lookup refreshes the first, and a third write evicts the
second. -/
theorem run_refines_recency_two :
    0 < 2 ∧
      ((Lru.empty 2 (by decide) : Lru Int Int).run
          [.insert 1 10, .insert 2 20, .get 1, .insert 3 30, .keys, .len]).1 =
        ((Recency.empty 2).run [.insert 1 10, .insert 2 20, .get 1, .insert 3 30, .keys, .len]).1 ∧
      ((Lru.empty 2 (by decide) : Lru Int Int).run
          [.insert 1 10, .insert 2 20, .get 1, .insert 3 30, .keys, .len]).2.recency =
        ((Recency.empty 2).run [.insert 1 10, .insert 2 20, .get 1, .insert 3 30, .keys, .len]).2 ∧
      ((Lru.empty 2 (by decide) : Lru Int Int).run
          [.insert 1 10, .insert 2 20, .get 1, .insert 3 30, .keys, .len]).2.Sound :=
  ⟨by decide, run_refines_recency 2 (by decide) _⟩

end Lru

end Wayfinder
