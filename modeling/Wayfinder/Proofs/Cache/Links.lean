import Wayfinder.Cache.Lru

/-!
# The recency list threaded through the slab

The slots of a cache are chained twice: forward from `head` along `next`, backward from `tail`
along `prev`. Both chains are described by one list of slot numbers, `order`, from the most to the
least recently used: each slot's `next` is the slot after it in `order`, and its `prev` the slot
after it in the reversed `order` (`Linked`). Taking a slot out of the list (`unlink`) removes it
from `order`; putting it at the front (`linkFront`) adds it at the front; and walking a chain
visits exactly the slots of `order`, in order.
-/

namespace Wayfinder

/-- The element just after `j` in `l`. -/
def nextIn : List Nat → Nat → Option Nat
  | [], _ => none
  | a :: l, j => if a = j then l.head? else nextIn l j

theorem nextIn_cons (a : Nat) (l : List Nat) (j : Nat) :
    nextIn (a :: l) j = if a = j then l.head? else nextIn l j := rfl

theorem nextIn_of_not_mem {l : List Nat} {j : Nat} (h : j ∉ l) : nextIn l j = none := by
  induction l with
  | nil => rfl
  | cons a l ih =>
      have hne : a ≠ j := fun hj => h (hj ▸ List.mem_cons_self)
      rw [nextIn_cons, if_neg hne, ih (fun hl => h (List.mem_cons_of_mem a hl))]

/-- In a list without repeats, the element after `j` is the one that follows it. -/
theorem nextIn_self {pre post : List Nat} {j : Nat} (h : (pre ++ j :: post).Nodup) :
    nextIn (pre ++ j :: post) j = post.head? := by
  induction pre with
  | nil => simp [nextIn_cons]
  | cons a pre ih =>
      have ha : a ≠ j := by
        intro haj
        subst haj
        simp at h
      rw [List.cons_append, nextIn_cons, if_neg ha]
      exact ih (List.nodup_cons.1 h).2

/-- Taking `i` out of a list without repeats: only the element before `i` gets a new successor. -/
theorem nextIn_append {A B : List Nat} {i j : Nat} (h : (A ++ i :: B).Nodup) (hj : j ≠ i) :
    nextIn (A ++ B) j = if A.getLast? = some j then B.head? else nextIn (A ++ i :: B) j := by
  induction A with
  | nil => simp [nextIn_cons, Ne.symm hj]
  | cons a A ih =>
      have hnd := List.nodup_cons.1 h
      have ha : a ∉ A ++ i :: B := hnd.1
      rw [List.cons_append, List.cons_append, nextIn_cons, nextIn_cons, ih hnd.2]
      by_cases haj : a = j
      · -- `j` is the first element, so it is the last of `a :: A` only when `A` is empty
        subst haj
        cases A with
        | nil => simp
        | cons b A =>
            have hlast : (b :: A).getLast? ≠ some a := by
              intro hl
              exact ha (List.mem_append_left _ (List.mem_of_getLast? hl))
            rw [if_pos rfl, if_pos rfl, List.getLast?_cons_cons, if_neg hlast]
            rfl
      · rw [if_neg haj, if_neg haj]
        cases A with
        | nil => simp [haj]
        | cons b A => rw [List.getLast?_cons_cons]

/-- Adding `i` at the end: the last element gets `i` as its successor. -/
theorem nextIn_concat {l : List Nat} {i j : Nat} (h : (l ++ [i]).Nodup) (hj : j ≠ i) :
    nextIn (l ++ [i]) j = if l.getLast? = some j then some i else nextIn l j := by
  induction l with
  | nil => simp [nextIn_cons, Ne.symm hj, nextIn]
  | cons a l ih =>
      have hnd := List.nodup_cons.1 h
      rw [List.cons_append, nextIn_cons, nextIn_cons, ih hnd.2]
      by_cases haj : a = j
      · subst haj
        cases l with
        | nil => simp
        | cons b l =>
            have hlast : (b :: l).getLast? ≠ some a := by
              intro hl
              exact hnd.1 (List.mem_append_left _ (List.mem_of_getLast? hl))
            rw [if_pos rfl, if_pos rfl, List.getLast?_cons_cons, if_neg hlast]
            rfl
      · rw [if_neg haj, if_neg haj]
        cases l with
        | nil => simp [haj, nextIn]
        | cons b l => rw [List.getLast?_cons_cons]

/-- In a list without repeats, the element between `A` and `B` is in neither. -/
theorem not_mem_of_nodup_middle {A B : List Nat} {i : Nat} (h : (A ++ i :: B).Nodup) :
    i ∉ A ++ B := by
  rw [List.nodup_append, List.nodup_cons] at h
  intro hmem
  rcases List.mem_append.1 hmem with hA | hB
  · exact h.2.2 i hA i List.mem_cons_self rfl
  · exact h.2.1.1 hB

namespace Lru

variable {κ ν : Type} [BEq κ] [Hashable κ]

/-- The list `order` threads the slots of `c`: `head` is its first slot and `tail` its last, and
each slot in it links forward to the slot after it and back to the slot before it. -/
structure Linked (c : Lru κ ν) (order : List Nat) : Prop where
  nodup : order.Nodup
  head : c.head = order.head?
  tail : c.tail = order.getLast?
  slot : ∀ j ∈ order, ∃ s, c.slots[j]? = some s ∧ s.next = nextIn order j ∧
    s.prev = nextIn order.reverse j

/-! ## Taking a slot out -/

section Unlink

variable (c : Lru κ ν) {i : Nat} {s : Slot κ ν}

/-- `unlink` clears the links of slot `i` and keeps its entry. -/
theorem unlink_slot_self (hs : c.slots[i]? = some s) :
    (c.unlink i).slots[i]? = some { s with prev := none, next := none } := by
  unfold unlink
  rw [hs]
  dsimp only
  rw [Array.getElem?_modify, if_pos rfl]
  -- the neighbours' writes touch only links, which are then cleared
  cases hp : s.prev with
  | none =>
      cases hn : s.next with
      | none => simp [hs]
      | some n =>
          simp only [Array.getElem?_modify]
          split <;> simp [hs]
  | some p =>
      cases hn : s.next with
      | none =>
          simp only [Array.getElem?_modify]
          split <;> simp [hs]
      | some n =>
          simp only [Array.getElem?_modify]
          split <;> split <;> simp [hs]

/-- `unlink` joins the two neighbours of slot `i` and leaves every other slot as it was. -/
theorem unlink_slot_of_ne (hs : c.slots[i]? = some s) {j : Nat} (hij : i ≠ j) :
    (c.unlink i).slots[j]? = (c.slots[j]?).map fun t =>
      { t with next := if s.prev = some j then s.next else t.next,
               prev := if s.next = some j then s.prev else t.prev } := by
  unfold unlink
  rw [hs]
  dsimp only
  rw [Array.getElem?_modify, if_neg hij]
  -- the slot before `i` gets a new `next`, the slot after it a new `prev`
  cases hp : s.prev with
  | none =>
      cases hn : s.next with
      | none => cases c.slots[j]? <;> simp
      | some n =>
          simp only [Array.getElem?_modify]
          by_cases hnj : n = j <;> cases c.slots[j]? <;> simp [hnj]
  | some p =>
      cases hn : s.next with
      | none =>
          simp only [Array.getElem?_modify]
          by_cases hpj : p = j <;> cases c.slots[j]? <;> simp [hpj]
      | some n =>
          simp only [Array.getElem?_modify]
          by_cases hpj : p = j <;> by_cases hnj : n = j <;> cases c.slots[j]? <;> simp [hpj, hnj]

theorem unlink_head (hs : c.slots[i]? = some s) :
    (c.unlink i).head = if s.prev = none then s.next else c.head := by
  unfold unlink
  rw [hs]
  dsimp only
  cases s.prev <;> cases s.next <;> simp

theorem unlink_tail (hs : c.slots[i]? = some s) :
    (c.unlink i).tail = if s.next = none then s.prev else c.tail := by
  unfold unlink
  rw [hs]
  dsimp only
  cases s.prev <;> cases s.next <;> simp

@[simp] theorem unlink_map (i : Nat) : (c.unlink i).map = c.map := by
  unfold unlink
  split
  · rfl
  · dsimp only
    split <;> split <;> rfl

@[simp] theorem unlink_capacity (i : Nat) : (c.unlink i).capacity = c.capacity := by
  unfold unlink
  split
  · rfl
  · dsimp only
    split <;> split <;> rfl

@[simp] theorem unlink_size (i : Nat) : (c.unlink i).slots.size = c.slots.size := by
  unfold unlink
  split
  · rfl
  · dsimp only
    split <;> split <;> simp

end Unlink

/-- Taking slot `i` out of the list takes it out of `order`. -/
theorem Linked.unlink {c : Lru κ ν} {A B : List Nat} {i : Nat} (h : c.Linked (A ++ i :: B)) :
    (c.unlink i).Linked (A ++ B) := by
  have hnd := h.nodup
  obtain ⟨s, hs, hnext, hprev⟩ := h.slot i (List.mem_append_right A List.mem_cons_self)
  have hrev : (A ++ i :: B).reverse = B.reverse ++ i :: A.reverse := by simp
  have hnd' : (B.reverse ++ i :: A.reverse).Nodup := by
    rw [← hrev]
    exact List.pairwise_reverse.2 (hnd.imp Ne.symm)
  -- the neighbours of `i` are the last of `A` and the first of `B`
  have hn : s.next = B.head? := by rw [hnext, nextIn_self hnd]
  have hp : s.prev = A.getLast? := by rw [hprev, hrev, nextIn_self hnd', List.head?_reverse]
  have hsub : (A ++ B).Sublist (A ++ i :: B) := (List.sublist_cons_self i B).append_left A
  refine ⟨hnd.sublist hsub, ?_, ?_, fun j hj => ?_⟩
  · rw [unlink_head c hs, hp, h.head]
    cases A with
    | nil => simp [hn]
    | cons a A => simp
  · rw [unlink_tail c hs, hn, h.tail]
    cases B with
    | nil => simp [hp]
    | cons b B => simp [List.getLast?_append]
  · have hji : i ≠ j := fun hij => not_mem_of_nodup_middle hnd (hij ▸ hj)
    obtain ⟨t, ht, htn, htp⟩ := h.slot j (hsub.subset hj)
    refine ⟨_, by rw [unlink_slot_of_ne c hs hji, ht, Option.map_some], ?_, ?_⟩
    · dsimp only
      rw [nextIn_append hnd (Ne.symm hji), hp, hn, htn]
    · dsimp only
      rw [List.reverse_append, nextIn_append hnd' (Ne.symm hji), hn, hp, htp, hrev,
        List.getLast?_reverse, List.head?_reverse]

/-! ## Putting a slot at the front -/

section LinkFront

variable (c : Lru κ ν) (i : Nat)

/-- `linkFront` links slot `i` to nothing before it and to the old front after it. -/
theorem linkFront_slot_self (hh : c.head ≠ some i) :
    (c.linkFront i).slots[i]? = (c.slots[i]?).map fun t => { t with prev := none, next := c.head } := by
  unfold linkFront
  dsimp only
  cases hh' : c.head with
  | none => simp [Array.getElem?_modify]
  | some h =>
      have hhi : h ≠ i := fun e => hh (by rw [hh', e])
      simp [Array.getElem?_modify, hhi]

/-- `linkFront` links the old front back to slot `i` and leaves every other slot as it was. -/
theorem linkFront_slot_of_ne {j : Nat} (hij : i ≠ j) :
    (c.linkFront i).slots[j]? = (c.slots[j]?).map fun t =>
      if c.head = some j then { t with prev := some i } else t := by
  unfold linkFront
  dsimp only
  cases hh : c.head with
  | none => simp [Array.getElem?_modify, hij]
  | some h =>
      simp only [Array.getElem?_modify, if_neg hij]
      by_cases hhj : h = j <;> cases c.slots[j]? <;> simp [hhj]

@[simp] theorem linkFront_head : (c.linkFront i).head = some i := rfl
@[simp] theorem linkFront_tail : (c.linkFront i).tail = c.tail.or (some i) := rfl
@[simp] theorem linkFront_map : (c.linkFront i).map = c.map := rfl
@[simp] theorem linkFront_capacity : (c.linkFront i).capacity = c.capacity := rfl

@[simp] theorem linkFront_size : (c.linkFront i).slots.size = c.slots.size := by
  unfold linkFront
  dsimp only
  split <;> simp

end LinkFront

/-- Putting a slot that is not in the list at its front adds it at the front of `order`. -/
theorem Linked.linkFront {c : Lru κ ν} {order : List Nat} {i : Nat} (h : c.Linked order)
    (hi : i ∉ order) (hs : i < c.slots.size) : (c.linkFront i).Linked (i :: order) := by
  have hnd : (i :: order).Nodup := List.nodup_cons.2 ⟨hi, h.nodup⟩
  have hrev : (i :: order).reverse = order.reverse ++ [i] := List.reverse_cons
  have hnd' : (order.reverse ++ [i]).Nodup := by
    rw [← hrev]
    exact List.pairwise_reverse.2 (hnd.imp Ne.symm)
  have hh : c.head ≠ some i := by
    rw [h.head]
    exact fun he => hi (List.mem_of_mem_head? he)
  refine ⟨hnd, rfl, ?_, fun j hj => ?_⟩
  · rw [linkFront_tail, h.tail]
    cases order with
    | nil => rfl
    | cons a l => simp [List.getLast?_cons]
  · rcases List.mem_cons.1 hj with rfl | hj
    · -- the new front: nothing before it, the old front after it
      refine ⟨_, by rw [linkFront_slot_self c j hh, Array.getElem?_eq_getElem hs, Option.map_some],
        ?_, ?_⟩
      · rw [nextIn_cons, if_pos rfl, h.head]
      · rw [hrev]
        exact (nextIn_self hnd').symm
    · -- a slot already in the list: only the old front gets a new `prev`
      have hij : i ≠ j := fun e => hi (e ▸ hj)
      obtain ⟨t, ht, htn, htp⟩ := h.slot j hj
      refine ⟨_, by rw [linkFront_slot_of_ne c i hij, ht, Option.map_some], ?_, ?_⟩
      · rw [nextIn_cons, if_neg hij, ← htn]
        split <;> rfl
      · rw [hrev, nextIn_concat hnd' (Ne.symm hij), List.getLast?_reverse, ← h.head, ← htp]
        split <;> rfl

/-! ## Walking the list -/

/-- The slots visited from `cur` following `link`, at most `fuel` of them. -/
def walk (slots : Array (Slot κ ν)) (link : Slot κ ν → Option Nat) : Option Nat → Nat → List Nat
  | none, _ => []
  | some _, 0 => []
  | some i, fuel + 1 =>
    match slots[i]? with
    | none => []
    | some s => i :: walk slots link (link s) fuel

omit [BEq κ] [Hashable κ] in
/-- The keys read forward are those of the slots the forward walk visits. -/
theorem keysFrom_eq_walk (slots : Array (Slot κ ν)) (cur : Option Nat) (fuel : Nat) :
    keysFrom slots cur fuel =
      (walk slots Slot.next cur fuel).filterMap fun j => slots[j]?.map Slot.key := by
  induction fuel generalizing cur with
  | zero => cases cur <;> rfl
  | succ fuel ih =>
      cases cur with
      | none => rfl
      | some i =>
          simp only [keysFrom, walk]
          cases hs : slots[i]? with
          | none => rfl
          | some s => simp [hs, ih]

omit [BEq κ] [Hashable κ] in
/-- Walking a list of slots without repeats, each linking to the next, visits exactly that list. -/
theorem walk_along {slots : Array (Slot κ ν)} {link : Slot κ ν → Option Nat} {l : List Nat}
    (hnd : l.Nodup) (hl : ∀ j ∈ l, ∃ s, slots[j]? = some s ∧ link s = nextIn l j) {fuel : Nat}
    (hf : l.length ≤ fuel) : walk slots link l.head? fuel = l := by
  -- every suffix of `l` is walked from its first slot
  suffices hsuf : ∀ (post pre : List Nat) (fuel : Nat), l = pre ++ post → post.length ≤ fuel →
      walk slots link post.head? fuel = post from hsuf l [] fuel rfl hf
  intro post
  induction post with
  | nil => intro pre fuel _ _; cases fuel <;> rfl
  | cons j post ih =>
      intro pre fuel hsplit hlen
      obtain ⟨s, hs, hlink⟩ := hl j (by rw [hsplit]; exact List.mem_append_right pre List.mem_cons_self)
      rw [hsplit, nextIn_self (hsplit ▸ hnd)] at hlink
      obtain ⟨fuel, rfl⟩ : ∃ f, fuel = f + 1 := ⟨fuel - 1, by simp at hlen; omega⟩
      simp only [List.head?_cons, walk, hs, hlink]
      rw [ih (pre ++ [j]) fuel (by rw [hsplit]; simp) (by simp at hlen; omega)]

/-- Forward from `head` along `next`, the walk visits `order`. -/
theorem Linked.walk_next {c : Lru κ ν} {order : List Nat} (h : c.Linked order) {fuel : Nat}
    (hf : order.length ≤ fuel) : walk c.slots Slot.next c.head fuel = order := by
  rw [h.head]
  exact walk_along h.nodup (fun j hj => (h.slot j hj).imp fun _ hs => ⟨hs.1, hs.2.1⟩) hf

/-- Back from `tail` along `prev`, the walk visits `order` reversed. -/
theorem Linked.walk_prev {c : Lru κ ν} {order : List Nat} (h : c.Linked order) {fuel : Nat}
    (hf : order.length ≤ fuel) : walk c.slots Slot.prev c.tail fuel = order.reverse := by
  rw [h.tail, ← List.head?_reverse]
  refine walk_along (List.pairwise_reverse.2 (h.nodup.imp Ne.symm)) (fun j hj => ?_) (by simpa using hf)
  obtain ⟨s, hs, _, hprev⟩ := h.slot j (List.mem_reverse.1 hj)
  exact ⟨s, hs, hprev⟩

end Lru

end Wayfinder
