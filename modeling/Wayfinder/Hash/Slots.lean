/-!
# The slot order of a hash table

A hash table that resolves collisions by probing keeps every key in a slot, and listing the
table walks the slots in order: keys come out in an order fixed by their hashes, the table's size
and the order in which they went in. Trees built from such a listing inherit that order, so it is
modelled here for tables of natural-number keys that are never removed.

* A key's hash is `mixHash`: the key times `0xf1357aea2e62a9c5` modulo `2 ^ 64`, rotated left by
  26 bits.
* A table has `2 ^ k` slots (`k ≥ 2`) and holds at most `slots - 1` keys below 8 slots and
  `slots / 8 * 7` from 8 on. An insertion into a full table first moves every key, in slot order,
  into a table sized for one more key: 4 slots for up to 3 keys, 8 for up to 7, otherwise the
  power of two at or above `8 / 7` of the keys. This happens before the key is looked up, so
  inserting a key already present can grow the table too.
* A new key goes into the first free slot of its probe sequence. The sequence starts at the hash
  modulo the number of slots; in a table of fewer than 16 slots it runs on to the end and then
  from the start, and otherwise it looks at 16 consecutive slots (wrapping around) at a time,
  moving on by 16, 32, 48, ... slots between the groups.
-/

namespace Wayfinder

namespace Hash

/-- The hash of a key: a multiplication by an odd constant followed by a rotation. -/
def mixHash (n : Nat) : UInt64 :=
  let h := n.toUInt64 * 0xf1357aea2e62a9c5
  (h <<< 26) ||| (h >>> 38)

/-- The least power of two at or above `n`: one up to `n = 1`, else two to the number of binary
digits of `n - 1`. -/
def powerOfTwoAtLeast (n : Nat) : Nat :=
  if n ≤ 1 then 1 else Nat.pow 2 (Nat.log2 (n - 1) + 1)

/-- Number of slots of a table made for `cap` keys. -/
def slotsFor (cap : Nat) : Nat :=
  if cap < 4 then 4 else if cap < 8 then 8 else powerOfTwoAtLeast (cap * 8 / 7)

/-- Number of keys a table of `n` slots holds (none for the table without slots). -/
def capacityOf (n : Nat) : Nat :=
  if n ≤ 8 then n - 1 else n / 8 * 7

/-- The first slot of `xs` that is free, scanning the `width` slots from `pos` on (wrapping). -/
def freeInGroup (xs : Array (Option Nat)) (pos width : Nat) : Option Nat :=
  (List.range width).findSome? fun b =>
    let i := (pos + b) % xs.size
    if xs[i]!.isNone then some i else none

/-- The slot a new key of hash `h` goes to in a table with a free slot. -/
def freeSlot (xs : Array (Option Nat)) (h : UInt64) : Nat :=
  let n := xs.size
  let pos := h.toNat % n
  if n < 16 then (freeInGroup xs pos n).getD 0
  else
    let rec probe : Nat → Nat → Nat → Nat
      | 0, _, _ => 0
      | fuel + 1, pos, stride =>
        match freeInGroup xs pos 16 with
        | some i => i
        | none => probe fuel ((pos + stride + 16) % n) (stride + 16)
    probe (n / 16 + 1) pos 0

/-- A table of keys by slot, with the number of keys it can still take. -/
structure SlotTable where
  slots : Array (Option Nat)
  room : Nat
deriving Inhabited

namespace SlotTable

/-- The table without slots. -/
def empty : SlotTable := ⟨#[], 0⟩

/-- The keys in slot order. -/
def keys (t : SlotTable) : List Nat := t.slots.toList.filterMap id

/-- Puts a key known to be absent into a free slot. -/
def place (xs : Array (Option Nat)) (k : Nat) : Array (Option Nat) :=
  xs.set! (freeSlot xs (mixHash k)) (some k)

/-- The table moved into one of `slotsFor cap` slots, keys taken in slot order. -/
def resize (t : SlotTable) (cap : Nat) : SlotTable :=
  let n := slotsFor cap
  let ks := t.keys
  ⟨ks.foldl place (Array.replicate n none), capacityOf n - ks.length⟩

/-- Inserts a key: the table grows first when full, then the key is placed unless present. -/
def insert (t : SlotTable) (k : Nat) : SlotTable :=
  let t := if t.room = 0 then t.resize (capacityOf t.slots.size + 1) else t
  if t.slots.contains (some k) then t else ⟨place t.slots k, t.room - 1⟩

/-- The table of the keys inserted in order. -/
def ofList (ks : List Nat) : SlotTable := ks.foldl insert empty

end SlotTable

end Hash

end Wayfinder
