import Wayfinder.Proofs.Cache.Links

/-!
# The cache refines its recency list

A cache is specified by its recency list: the entries from the most to the least recently used,
with the capacity. A lookup (`get`) moves the entry to the front, a peek does not; writing a
present key replaces its value and moves it to the front; writing a new key puts it at the front,
after dropping and handing back the last entry when the list is full; clearing empties it.

The cache keeps the list in its slab, threaded by the links, and finds entries through its map.
The invariant `Tracks` ties the three together along a list `order` of slot numbers: the links
thread `order` (`Linked`), `order` holds every slot once, and the map sends each key to the slot
that holds it. Every call keeps the invariant and acts on the entries along `order` as the
recency list says, so along every sequence of calls the cache answers what its recency list
answers.
-/

namespace Wayfinder

/-- The entries of a cache from the most to the least recently used, with its capacity. -/
structure Recency (κ : Type) (ν : Type) where
  capacity : Nat
  entries : List (κ × ν)

namespace Recency

variable {κ ν : Type} [BEq κ]

/-- The empty recency list of a capacity. -/
def empty (capacity : Nat) : Recency κ ν := ⟨capacity, []⟩

def size (m : Recency κ ν) : Nat := m.entries.length

def keys (m : Recency κ ν) : List κ := m.entries.map Prod.fst

def contains (m : Recency κ ν) (k : κ) : Bool := m.entries.any fun e => e.1 == k

def peek (m : Recency κ ν) (k : κ) : Option ν := (m.entries.find? fun e => e.1 == k).map Prod.snd

/-- The entries without the one of `k`. -/
def without (m : Recency κ ν) (k : κ) : List (κ × ν) := m.entries.filter fun e => !(e.1 == k)

/-- The value of `k`, whose entry moves to the front. -/
def get (m : Recency κ ν) (k : κ) : Option ν × Recency κ ν :=
  match m.peek k with
  | some v => (some v, { m with entries := (k, v) :: m.without k })
  | none => (none, m)

/-- Writes `v` under `k` at the front; a new key in a full list drops the last entry and hands it
back. -/
def insert (m : Recency κ ν) (k : κ) (v : ν) : Option (κ × ν) × Recency κ ν :=
  if m.contains k then (none, { m with entries := (k, v) :: m.without k })
  else if m.size < m.capacity then (none, { m with entries := (k, v) :: m.entries })
  else (m.entries.getLast?, { m with entries := (k, v) :: m.entries.dropLast })

def clear (m : Recency κ ν) : Recency κ ν := { m with entries := [] }

/-! ## Lists whose keys are distinct -/

variable [LawfulBEq κ]

theorem contains_iff (m : Recency κ ν) (k : κ) : m.contains k = true ↔ k ∈ m.keys := by
  simp [contains, keys]

theorem peek_of_not_mem {m : Recency κ ν} {k : κ} (h : k ∉ m.keys) : m.peek k = none := by
  simp only [peek, Option.map_eq_none_iff, List.find?_eq_none, beq_iff_eq]
  intro e he hk
  exact h (List.mem_map.2 ⟨e, he, hk⟩)

/-- With distinct keys, the entry of `k` is the one found. -/
theorem peek_of_split {m : Recency κ ν} {E₁ E₂ : List (κ × ν)} {k : κ} {v : ν}
    (hm : m.entries = E₁ ++ (k, v) :: E₂) (hnd : m.keys.Nodup) : m.peek k = some v := by
  have hk : k ∉ E₁.map Prod.fst := by
    simp only [keys, hm, List.map_append, List.map_cons] at hnd
    exact fun h => (List.nodup_append.1 hnd).2.2 k h k List.mem_cons_self rfl
  have hnone : E₁.find? (fun e => e.1 == k) = none := by
    simp only [List.find?_eq_none, beq_iff_eq]
    exact fun e he hek => hk (List.mem_map.2 ⟨e, he, hek⟩)
  simp [peek, hm, List.find?_append, hnone]

/-- With distinct keys, dropping `k` drops exactly its entry. -/
theorem without_of_split {m : Recency κ ν} {E₁ E₂ : List (κ × ν)} {k : κ} {v : ν}
    (hm : m.entries = E₁ ++ (k, v) :: E₂) (hnd : m.keys.Nodup) : m.without k = E₁ ++ E₂ := by
  simp only [keys, hm, List.map_append, List.map_cons] at hnd
  have hk₁ : ∀ e ∈ E₁, e.1 ≠ k := fun e he hek =>
    (List.nodup_append.1 hnd).2.2 e.1 (List.mem_map_of_mem he) k List.mem_cons_self hek
  have hk₂ : ∀ e ∈ E₂, e.1 ≠ k := fun e he hek =>
    (List.nodup_cons.1 (List.nodup_append.1 hnd).2.1).1 (hek ▸ List.mem_map_of_mem he)
  simp only [without, hm, List.filter_append, List.filter_cons, beq_self_eq_true, Bool.not_true,
    Bool.false_eq_true, if_false]
  rw [List.filter_eq_self.2 (fun e he => by simpa using hk₁ e he),
    List.filter_eq_self.2 (fun e he => by simpa using hk₂ e he)]

end Recency

namespace Lru

variable {κ ν : Type} [BEq κ] [Hashable κ]

/-- The entry held in slot `j`. -/
def entryAt (c : Lru κ ν) (j : Nat) : Option (κ × ν) := c.slots[j]?.map fun s => (s.key, s.value)

/-- The recency list a cache holds: the entries along its list, from `head`. -/
def recency (c : Lru κ ν) : Recency κ ν :=
  ⟨c.capacity, (walk c.slots Slot.next c.head c.slots.size).filterMap c.entryAt⟩

@[simp] theorem recency_capacity (c : Lru κ ν) : c.recency.capacity = c.capacity := rfl

/-- The keys a cache lists are the keys of its recency list, in every state. -/
theorem keys_eq (c : Lru κ ν) : c.keys = c.recency.keys := by
  rw [Lru.keys, keysFrom_eq_walk, Recency.keys, recency, List.map_filterMap]
  simp [entryAt, Option.map_map, Function.comp_def]

/-- The key held in slot `j`. -/
def keyAt (c : Lru κ ν) (j : Nat) : Option κ := c.slots[j]?.map Slot.key

theorem keyAt_eq (c : Lru κ ν) (j : Nat) : c.keyAt j = (c.entryAt j).map Prod.fst := by
  simp only [keyAt, entryAt, Option.map_map]
  rfl

/-! ## Relinking keeps the entries -/

@[simp] theorem unlink_entryAt (c : Lru κ ν) (i j : Nat) : (c.unlink i).entryAt j = c.entryAt j := by
  cases hs : c.slots[i]? with
  | none => simp [unlink, hs]
  | some s =>
      by_cases hij : i = j
      · subst hij
        simp [entryAt, unlink_slot_self c hs, hs]
      · simp only [entryAt, unlink_slot_of_ne c hs hij, Option.map_map]
        cases c.slots[j]? <;> rfl

@[simp] theorem linkFront_entryAt (c : Lru κ ν) (i j : Nat) :
    (c.linkFront i).entryAt j = c.entryAt j := by
  unfold linkFront entryAt
  dsimp only
  cases c.head with
  | none =>
      simp only [Array.getElem?_modify]
      split <;> cases c.slots[j]? <;> rfl
  | some h =>
      simp only [Array.getElem?_modify]
      split <;> split <;> cases c.slots[j]? <;> rfl

theorem keyAt_of_entryAt {c c' : Lru κ ν} (h : ∀ j, c'.entryAt j = c.entryAt j) (j : Nat) :
    c'.keyAt j = c.keyAt j := by
  rw [keyAt_eq, keyAt_eq, h]

theorem filterMap_entryAt_congr {c c' : Lru κ ν} {l : List Nat}
    (h : ∀ j ∈ l, c'.entryAt j = c.entryAt j) : l.filterMap c'.entryAt = l.filterMap c.entryAt := by
  induction l with
  | nil => rfl
  | cons j l ih =>
      rw [List.filterMap_cons, List.filterMap_cons, h j List.mem_cons_self,
        ih (fun j' hj' => h j' (List.mem_cons_of_mem j hj'))]

/-- Writes that keep every link of the slots in `order` keep the list. -/
theorem Linked.of_links {c c' : Lru κ ν} {order : List Nat} (h : c.Linked order)
    (hhead : c'.head = c.head) (htail : c'.tail = c.tail)
    (hlinks : ∀ j ∈ order, (c'.slots[j]?).map (fun s => (s.prev, s.next)) =
      (c.slots[j]?).map (fun s => (s.prev, s.next))) : c'.Linked order := by
  refine ⟨h.nodup, hhead.trans h.head, htail.trans h.tail, fun j hj => ?_⟩
  obtain ⟨s, hs, hn, hp⟩ := h.slot j hj
  have hl := hlinks j hj
  rw [hs] at hl
  cases hs' : c'.slots[j]? with
  | none => rw [hs'] at hl; cases hl
  | some s' =>
      rw [hs', Option.map_some, Option.map_some, Option.some.injEq, Prod.mk.injEq] at hl
      exact ⟨s', rfl, hl.2.trans hn, hl.1.trans hp⟩

/-! ## The invariant -/

/-- The cache keeps its entries in the slots of `order`, from the most to the least recently used:
the links thread `order`, `order` holds every slot of the slab once, the slab stays within the
capacity, and the map sends each key to the slot that holds it, one entry for each slot. -/
structure Tracks (c : Lru κ ν) (order : List Nat) : Prop where
  linked : c.Linked order
  covers : order.Perm (List.range c.slots.size)
  bounded : c.slots.size ≤ c.capacity
  map : ∀ k j, c.map[k]? = some j ↔ c.keyAt j = some k
  size : c.map.size = order.length

namespace Tracks

variable {c : Lru κ ν} {order : List Nat}

theorem length_eq (h : c.Tracks order) : order.length = c.slots.size := by
  rw [h.covers.length_eq, List.length_range]

theorem mem_iff (h : c.Tracks order) {j : Nat} : j ∈ order ↔ j < c.slots.size := by
  rw [h.covers.mem_iff, List.mem_range]

theorem entries (h : c.Tracks order) : c.recency.entries = order.filterMap c.entryAt := by
  simp only [recency]
  rw [h.linked.walk_next (Nat.le_of_eq h.length_eq)]

theorem mem_of_keyAt (h : c.Tracks order) {j : Nat} {k : κ} (hj : c.keyAt j = some k) :
    j ∈ order := by
  rw [h.mem_iff]
  cases hs : c.slots[j]? with
  | none => simp [keyAt, hs] at hj
  | some s => exact (Array.getElem?_eq_some_iff.1 hs).1

theorem entryAt_of_mem (h : c.Tracks order) {j : Nat} (hj : j ∈ order) :
    ∃ s, c.slots[j]? = some s ∧ c.entryAt j = some (s.key, s.value) := by
  obtain ⟨s, hs, _⟩ := h.linked.slot j hj
  exact ⟨s, hs, by simp [entryAt, hs]⟩

/-- Each key is held in one slot at most. -/
theorem slot_unique (h : c.Tracks order) {k : κ} {j j' : Nat} (hj : c.keyAt j = some k)
    (hj' : c.keyAt j' = some k) : j = j' :=
  Option.some.inj (((h.map k j).2 hj).symm.trans ((h.map k j').2 hj'))

theorem keys_nodup (h : c.Tracks order) : c.recency.keys.Nodup := by
  rw [Recency.keys, h.entries, List.map_filterMap]
  -- distinct slots of the list hold distinct keys, as the map sends each key to one slot
  refine List.pairwise_filterMap.2 (List.Pairwise.imp (fun {a a'} hne b hb b' hb' hbb => ?_)
    h.linked.nodup)
  rw [← keyAt_eq] at hb hb'
  rw [hbb] at hb
  exact hne (h.slot_unique hb hb')

/-- A key in the map: its slot splits the list, and its entry splits the recency list. -/
theorem split (h : c.Tracks order) {k : κ} {i : Nat} (hk : c.map[k]? = some i) :
    ∃ A B s, order = A ++ i :: B ∧ c.slots[i]? = some s ∧ s.key = k ∧
      c.recency.entries = A.filterMap c.entryAt ++ (k, s.value) :: B.filterMap c.entryAt := by
  have hkey := (h.map k i).1 hk
  obtain ⟨A, B, hsplit⟩ := List.append_of_mem (h.mem_of_keyAt hkey)
  obtain ⟨s, hs, hentry⟩ := h.entryAt_of_mem (h.mem_of_keyAt hkey)
  have hsk : s.key = k := by simpa [keyAt, hs] using hkey
  refine ⟨A, B, s, hsplit, hs, hsk, ?_⟩
  rw [h.entries, hsplit, List.filterMap_append, List.filterMap_cons, hentry, hsk]

theorem map_past (h : c.Tracks order) (k' : κ) (j : Nat) :
    c.map[k']? = some j ↔ c.keyAt j = some k' ∧ j ≠ c.slots.size := by
  rw [h.map]
  constructor
  · intro hj
    refine ⟨hj, fun hji => ?_⟩
    subst hji
    simp [keyAt] at hj
  · exact fun hj => hj.1

theorem keyAt_ne (h : c.Tracks order) {k : κ} (hk : c.map[k]? = none) (j : Nat) :
    c.keyAt j ≠ some k := by
  intro hj
  rw [← h.map, hk] at hj
  cases hj

/-- A key not in the map is not in the recency list. -/
theorem not_mem (h : c.Tracks order) {k : κ} (hk : c.map[k]? = none) : k ∉ c.recency.keys := by
  intro hmem
  rw [Recency.keys, h.entries, List.map_filterMap] at hmem
  obtain ⟨j, _, hj⟩ := List.mem_filterMap.1 hmem
  exact h.keyAt_ne hk j (by rw [keyAt_eq, hj])

theorem recency_size (h : c.Tracks order) : c.recency.size = c.slots.size := by
  rw [Recency.size, h.entries, List.length_filterMap_eq_countP, ← h.length_eq, List.countP_eq_length]
  -- no slot of the list is dropped: each holds an entry
  intro j hj
  obtain ⟨s, -, he⟩ := h.entryAt_of_mem hj
  simp [he]

end Tracks

/-! ## Each call acts on the recency list as it says -/

@[simp] theorem promote_capacity (c : Lru κ ν) (i : Nat) : (c.promote i).capacity = c.capacity := by
  unfold Lru.promote
  split <;> simp

namespace Tracks

variable {c : Lru κ ν} {order : List Nat}

/-- A full slab is not empty, so the list ends in a slot, the one the tail names. -/
theorem last (h : c.Tracks order) (hfull : ¬c.slots.size < c.capacity) :
    ∃ A i, order = A ++ [i] ∧ c.tail = some i := by
  have hne : order ≠ [] := by
    intro he
    have hlen := h.length_eq
    rw [he, List.length_nil] at hlen
    have hpos := c.capacity_pos
    omega
  refine ⟨_, _, (List.dropLast_concat_getLast hne).symm, ?_⟩
  rw [h.linked.tail, List.getLast?_eq_some_getLast hne]

theorem recency_eq (h : c.Tracks order) : c.recency = ⟨c.capacity, order.filterMap c.entryAt⟩ := by
  rw [← h.entries]
  rfl

/-- A cache whose new front slot `i` holds `(k, v)`, the others holding what those of `c` hold,
lists `(k, v)` before the entries of `c` along the rest of its list. -/
theorem recency_front {c' : Lru κ ν} {L : List Nat} {i : Nat} {k : κ} {v : ν}
    (ht : c'.Tracks (i :: L)) (hi : i ∉ L)
    (hentry : ∀ j, c'.entryAt j = if j = i then some (k, v) else c.entryAt j) :
    c'.recency = ⟨c'.capacity, (k, v) :: L.filterMap c.entryAt⟩ := by
  have hrest : L.filterMap c'.entryAt = L.filterMap c.entryAt :=
    filterMap_entryAt_congr fun j hj => by rw [hentry, if_neg (fun (e : j = i) => hi (e ▸ hj))]
  rw [ht.recency_eq, List.filterMap_cons, hentry, if_pos rfl, hrest]

/-- A cache with the map, capacity, slab size and keys of one that tracks `order`, linked along a
rearrangement of `order`, tracks that rearrangement. -/
theorem of_linked (h : c.Tracks order) {c' : Lru κ ν} {order' : List Nat} (hl : c'.Linked order')
    (hp : order'.Perm order) (hsize : c'.slots.size = c.slots.size)
    (hcap : c'.capacity = c.capacity) (hmap : c'.map = c.map) (hkey : ∀ j, c'.keyAt j = c.keyAt j) :
    c'.Tracks order' := by
  refine ⟨hl, ?_, ?_, fun k j => ?_, ?_⟩
  · rw [hsize]
    exact hp.trans h.covers
  · rw [hsize, hcap]
    exact h.bounded
  · rw [hmap, hkey]
    exact h.map k j
  · rw [hmap, h.size, hp.length_eq]

/-- Moving slot `i` of the list to its front moves it to the front of `order`; the entries stay. -/
theorem promote {A B : List Nat} {i : Nat} (h : c.Tracks (A ++ i :: B)) :
    (c.promote i).Tracks (i :: (A ++ B)) ∧ ∀ j, (c.promote i).entryAt j = c.entryAt j := by
  unfold Lru.promote
  split
  · next hhead =>
      -- `i` is already at the front, so nothing comes before it
      have hA : A = [] := by
        cases A with
        | nil => rfl
        | cons a A =>
            have ha : a = i := by
              have hh := h.linked.head
              rw [hhead] at hh
              simpa using hh.symm
            subst ha
            have hnd := h.linked.nodup
            simp at hnd
      subst hA
      exact ⟨h, fun _ => rfl⟩
  · have hi : i < c.slots.size := h.mem_iff.1 (List.mem_append_right A List.mem_cons_self)
    have hnot : i ∉ A ++ B := not_mem_of_nodup_middle h.linked.nodup
    have hentry : ∀ j, ((c.unlink i).linkFront i).entryAt j = c.entryAt j := by simp
    refine ⟨h.of_linked (h.linked.unlink.linkFront hnot (by simpa using hi)) List.perm_middle.symm
      (by simp) (by simp) (by simp) (keyAt_of_entryAt hentry), hentry⟩

end Tracks

/-! ## Writing into a slot -/

/-- Writing a value into slot `i` changes only the entry of slot `i`. -/
theorem setValue_entryAt (c : Lru κ ν) (i : Nat) (v : ν) (j : Nat) :
    ({ c with slots := c.slots.modify i fun t => { t with value := v } } : Lru κ ν).entryAt j =
      if i = j then (c.entryAt j).map fun e => (e.1, v) else c.entryAt j := by
  simp only [entryAt, Array.getElem?_modify]
  split <;> cases c.slots[j]? <;> rfl

theorem setEntry_entryAt (c : Lru κ ν) (i : Nat) (k : κ) (v : ν) (m : Std.HashMap κ Nat) (j : Nat) :
    ({ c with slots := c.slots.modify i fun t => { t with key := k, value := v }, map := m } :
      Lru κ ν).entryAt j = if i = j then (c.entryAt j).map fun _ => (k, v) else c.entryAt j := by
  simp only [entryAt, Array.getElem?_modify]
  split <;> cases c.slots[j]? <;> rfl

/-- A write into a slot that keeps its links keeps the list, whatever the map becomes. -/
theorem Linked.modify {c : Lru κ ν} {order : List Nat} (h : c.Linked order) (i : Nat)
    (f : Slot κ ν → Slot κ ν) (hf : ∀ t, (f t).prev = t.prev ∧ (f t).next = t.next)
    (m : Std.HashMap κ Nat) : ({ c with slots := c.slots.modify i f, map := m } : Lru κ ν).Linked order :=
  h.of_links rfl rfl fun j _ => by
    simp only [Array.getElem?_modify]
    split
    · cases c.slots[j]? with
      | none => rfl
      | some t => simp only [Option.map_some, hf t]
    · rfl

theorem Tracks.setValue {c : Lru κ ν} {order : List Nat} (h : c.Tracks order) (i : Nat) (v : ν) :
    ({ c with slots := c.slots.modify i fun t => { t with value := v } } : Lru κ ν).Tracks order := by
  refine h.of_linked (h.linked.modify i (fun t => { t with value := v }) (fun _ => ⟨rfl, rfl⟩) c.map) (List.Perm.refl _) (by simp)
    rfl rfl fun j => ?_
  rw [keyAt_eq, keyAt_eq, setValue_entryAt]
  split <;> cases c.entryAt j <;> rfl

/-- The map after a new key `k` took slot `i`: `m₀` is the map of the other keys, and `k` was in
no slot before. -/
theorem map_install [LawfulBEq κ] {c c' : Lru κ ν} {m₀ : Std.HashMap κ Nat} {i : Nat} {k : κ}
    {v : ν} (hm₀ : ∀ k' j, m₀[k']? = some j ↔ c.keyAt j = some k' ∧ j ≠ i)
    (hk : ∀ j, c.keyAt j ≠ some k)
    (hentry : ∀ j, c'.entryAt j = if j = i then some (k, v) else c.entryAt j)
    (k' : κ) (j : Nat) : (m₀.insert k i)[k']? = some j ↔ c'.keyAt j = some k' := by
  have hkey : c'.keyAt j = if j = i then some k else c.keyAt j := by
    rw [keyAt_eq, hentry, keyAt_eq]
    split <;> rfl
  rw [Std.HashMap.getElem?_insert, hkey]
  by_cases hkk : k = k'
  · subst hkk
    by_cases hji : j = i
    · simp [hji]
    · simp only [beq_self_eq_true, if_true, Option.some.injEq, if_neg hji]
      exact ⟨fun he => absurd he.symm hji, fun he => absurd he (hk j)⟩
  · have hkk' : (k == k') = false := by simpa using hkk
    simp only [hkk', Bool.false_eq_true, if_false]
    rw [hm₀]
    by_cases hji : j = i
    · simp [hji, hkk]
    · simp [hji]

theorem size_install [LawfulBEq κ] {m₀ : Std.HashMap κ Nat} {i : Nat} {k : κ}
    (hk : m₀[k]? = none) : (m₀.insert k i).size = m₀.size + 1 := by
  rw [Std.HashMap.size_insert, if_neg]
  rw [Std.HashMap.mem_iff_isSome_getElem?, hk]
  simp

/-- A call on the cache agrees with the same call on its recency list: the same reply, and a cache
that still tracks a list and holds the recency list the call leaves. -/
structure Agrees {α : Type} (r : α × Lru κ ν) (m : α × Recency κ ν) : Prop where
  tracks : ∃ order, r.2.Tracks order
  reply : r.1 = m.1
  recency : r.2.recency = m.2

namespace Tracks

variable {c : Lru κ ν} {order : List Nat}

variable [LawfulBEq κ]

theorem peek (h : c.Tracks order) (k : κ) : c.peek k = c.recency.peek k := by
  cases hk : c.map[k]? with
  | none =>
      rw [Recency.peek_of_not_mem (h.not_mem hk)]
      simp [Lru.peek, hk]
  | some i =>
      obtain ⟨A, B, s, -, hs, -, hentries⟩ := h.split hk
      rw [Recency.peek_of_split hentries h.keys_nodup]
      simp [Lru.peek, hk, hs]

theorem contains (h : c.Tracks order) (k : κ) : c.contains k = c.recency.contains k := by
  rw [Lru.contains, Std.HashMap.contains_eq_isSome_getElem?]
  cases hk : c.map[k]? with
  | none =>
      have hc : c.recency.contains k = false := by
        rw [Bool.eq_false_iff]
        intro hc
        exact h.not_mem hk ((Recency.contains_iff _ _).1 hc)
      rw [hc]
      rfl
  | some i =>
      obtain ⟨A, B, s, -, -, -, hentries⟩ := h.split hk
      have hc : c.recency.contains k = true := by
        rw [Recency.contains_iff, Recency.keys, hentries]
        simp
      rw [hc]
      rfl

omit [LawfulBEq κ] in
theorem size_eq (h : c.Tracks order) : c.size = c.recency.size := by
  rw [Lru.size, h.size, h.recency_size, h.length_eq]

/-- A lookup moves the entry found to the front, as in the recency list. -/
theorem get (h : c.Tracks order) (k : κ) :
    Agrees (c.get k) (c.recency.get k) := by
  cases hk : c.map[k]? with
  | none =>
      have hpeek : c.recency.peek k = none := Recency.peek_of_not_mem (h.not_mem hk)
      refine ⟨⟨order, ?_⟩, ?_, ?_⟩ <;> simp [Lru.get, Recency.get, hk, hpeek, h]
  | some i =>
      obtain ⟨A, B, s, hsplit, hs, hsk, hentries⟩ := h.split hk
      have hpeek := Recency.peek_of_split hentries h.keys_nodup
      have hwithout := Recency.without_of_split hentries h.keys_nodup
      rw [hsplit] at h
      obtain ⟨hp, hentry⟩ := h.promote
      have hvalue : (c.promote i).slots[i]?.map Slot.value = some s.value := by
        have he := hentry i
        simp only [entryAt, hs, Option.map_some] at he
        cases hpi : (c.promote i).slots[i]? with
        | none => rw [hpi] at he; cases he
        | some t =>
            rw [hpi, Option.map_some, Option.some.injEq, Prod.mk.injEq] at he
            rw [Option.map_some, he.2]
      have hget : c.get k = (some s.value, c.promote i) := by
        simp [Lru.get, hk, hvalue]
      refine ⟨⟨_, by rw [hget]; exact hp⟩, by simp [hget, Recency.get, hpeek], ?_⟩
      have hspec : (c.recency.get k).2 =
          ⟨c.capacity, (k, s.value) :: (A.filterMap c.entryAt ++ B.filterMap c.entryAt)⟩ := by
        simp only [Recency.get, hpeek, hwithout]
        rfl
      rw [hget, hspec, hp.recency_eq, List.filterMap_cons, hentry,
        filterMap_entryAt_congr (fun j _ => hentry j)]
      simp [entryAt, hs, hsk]

/-- Writing a present key replaces its value and moves it to the front. -/
theorem insert_present (h : c.Tracks order) {k : κ} {i : Nat} (hk : c.map[k]? = some i) (v : ν) :
    Agrees (c.insert k v) (c.recency.insert k v) := by
  obtain ⟨A, B, s, hsplit, hs, hsk, hentries⟩ := h.split hk
  have hcontains : c.recency.contains k = true := by
    rw [← h.contains, Lru.contains, Std.HashMap.contains_eq_isSome_getElem?, hk]
    rfl
  have hwithout := Recency.without_of_split hentries h.keys_nodup
  have hnot : i ∉ A ++ B := not_mem_of_nodup_middle (hsplit ▸ h.linked.nodup)
  have h₁ := h.setValue i v
  rw [hsplit] at h₁
  obtain ⟨hp, hentry⟩ := h₁.promote
  have hins : c.insert k v =
      (none, ({ c with slots := c.slots.modify i fun t => { t with value := v } } : Lru κ ν).promote i) := by
    simp [Lru.insert, hk]
  have hspec : c.recency.insert k v =
      (none, ⟨c.capacity, (k, v) :: (A.filterMap c.entryAt ++ B.filterMap c.entryAt)⟩) := by
    simp only [Recency.insert, hcontains, if_true, hwithout]
    rfl
  refine ⟨⟨_, by rw [hins]; exact hp⟩, by rw [hins, hspec], ?_⟩
  -- the written slot holds `(k, v)`; every other slot keeps its entry
  have hothers : ∀ j ∈ A ++ B, (({ c with slots := c.slots.modify i fun t => { t with value := v } } :
      Lru κ ν).promote i).entryAt j = c.entryAt j := by
    intro j hj
    rw [hentry, setValue_entryAt, if_neg (fun (hij : i = j) => hnot (hij ▸ hj))]
  rw [hins, hspec, hp.recency_eq, List.filterMap_cons, hentry, setValue_entryAt, if_pos rfl,
    filterMap_entryAt_congr hothers, List.filterMap_append]
  simp [entryAt, hs, hsk]

/-- Writing a new key while the slab has room takes a new slot at the front. -/
theorem insert_fresh (h : c.Tracks order) {k : κ} (hk : c.map[k]? = none)
    (hroom : c.slots.size < c.capacity) (v : ν) :
    Agrees (c.insert k v) (c.recency.insert k v) := by
  have hcontains : c.recency.contains k = false := by
    rw [← h.contains, Lru.contains, Std.HashMap.contains_eq_isSome_getElem?, hk]
    rfl
  have hspec : c.recency.insert k v = (none, ⟨c.capacity, (k, v) :: order.filterMap c.entryAt⟩) := by
    simp only [Recency.insert, hcontains, h.recency_size, recency_capacity, hroom,
      Bool.false_eq_true, if_false, if_true]
    rw [h.entries]
  -- the new slot is numbered by the old size of the slab, past every slot of the list
  obtain ⟨c₁, hc₁⟩ : ∃ c₁ : Lru κ ν, c₁ = { c with slots := c.slots.push ⟨k, v, none, none⟩,
                                                   map := c.map.insert k c.slots.size } := ⟨_, rfl⟩
  have hins : c.insert k v = (none, c₁.linkFront c.slots.size) := by
    rw [hc₁]
    simp [Lru.insert, hk, hroom]
  have hout : c.slots.size ∉ order := fun hn => Nat.lt_irrefl _ (h.mem_iff.1 hn)
  have hentry : ∀ j, (c₁.linkFront c.slots.size).entryAt j =
      if j = c.slots.size then some (k, v) else c.entryAt j := by
    intro j
    rw [linkFront_entryAt, hc₁]
    simp only [entryAt, Array.getElem?_push]
    split <;> rfl
  have hmap : (c₁.linkFront c.slots.size).map = c.map.insert k c.slots.size := by
    rw [linkFront_map, hc₁]
  have hlinked : c₁.Linked order := by
    refine h.linked.of_links (by rw [hc₁]) (by rw [hc₁]) fun j hj => ?_
    rw [hc₁]
    dsimp only
    rw [Array.getElem?_push, if_neg (Nat.ne_of_lt (h.mem_iff.1 hj))]
  have ht : (c₁.linkFront c.slots.size).Tracks (c.slots.size :: order) := by
    refine ⟨hlinked.linkFront hout (by rw [hc₁]; simp), ?_, ?_, ?_, ?_⟩
    · rw [linkFront_size, hc₁]
      simp only [Array.size_push, List.range_succ]
      exact (List.perm_append_singleton _ _).symm.trans (h.covers.append_right _)
    · rw [linkFront_size, linkFront_capacity, hc₁]
      simp only [Array.size_push]
      exact hroom
    · rw [hmap]
      exact map_install h.map_past (h.keyAt_ne hk) hentry
    · rw [hmap, List.length_cons, size_install hk, h.size]
  refine ⟨⟨_, by rw [hins]; exact ht⟩, by rw [hins, hspec], ?_⟩
  rw [hins, hspec, ht.recency_front hout hentry, linkFront_capacity, hc₁]

/-- The map without the key of slot `i` sends every other key to its slot, none of them `i`. -/
theorem map_erase (h : c.Tracks order) {i : Nat} {key : κ} (hkey : c.keyAt i = some key) (k' : κ)
    (j : Nat) : (c.map.erase key)[k']? = some j ↔ c.keyAt j = some k' ∧ j ≠ i := by
  rw [Std.HashMap.getElem?_erase, ← h.map]
  by_cases hkk : key = k'
  · subst hkk
    rw [beq_self_eq_true, if_pos rfl, (h.map key i).2 hkey]
    constructor
    · intro he
      cases he
    · rintro ⟨he, hji⟩
      exact absurd (Option.some.inj he).symm hji
  · have hkk' : (key == k') = false := by simpa using hkk
    simp only [hkk', Bool.false_eq_true, if_false]
    refine ⟨fun hj => ⟨hj, fun hji => hkk ?_⟩, fun hj => hj.1⟩
    subst hji
    exact Option.some.inj (hkey.symm.trans ((h.map k' j).1 hj))

theorem size_erase (h : c.Tracks order) {i : Nat} {key : κ} (hkey : c.keyAt i = some key) :
    (c.map.erase key).size + 1 = order.length := by
  have hmem : key ∈ c.map := by
    rw [Std.HashMap.mem_iff_isSome_getElem?, (h.map key i).2 hkey]
    rfl
  have hpos : 0 < order.length := List.length_pos_of_mem (h.mem_of_keyAt hkey)
  rw [Std.HashMap.size_erase, if_pos hmem, h.size]
  omega

/-- Writing a new key into a full cache recycles the slot at the back of the list, whose entry is
handed back, and puts it at the front. -/
theorem insert_evict (h : c.Tracks order) {k : κ} (hk : c.map[k]? = none)
    (hfull : ¬c.slots.size < c.capacity) (v : ν) :
    Agrees (c.insert k v) (c.recency.insert k v) := by
  obtain ⟨A, i, hsplit, htail⟩ := h.last hfull
  have hi : i ∈ order := by
    rw [hsplit]
    exact List.mem_append_right A List.mem_cons_self
  have hout : i ∉ A := by
    have hnd := h.linked.nodup
    rw [hsplit] at hnd
    simpa using not_mem_of_nodup_middle hnd
  obtain ⟨s, hs, hentry_i⟩ := h.entryAt_of_mem hi
  have hkey_i : c.keyAt i = some s.key := by rw [keyAt_eq, hentry_i]; rfl
  have hcontains : c.recency.contains k = false := by
    rw [← h.contains, Lru.contains, Std.HashMap.contains_eq_isSome_getElem?, hk]
    rfl
  have hentries : c.recency.entries = A.filterMap c.entryAt ++ [(s.key, s.value)] := by
    rw [h.entries, hsplit, List.filterMap_append, List.filterMap_cons, hentry_i]
    rfl
  have hspec : c.recency.insert k v =
      (some (s.key, s.value), ⟨c.capacity, (k, v) :: A.filterMap c.entryAt⟩) := by
    simp only [Recency.insert, hcontains, h.recency_size, recency_capacity, hfull,
      Bool.false_eq_true, if_false, hentries, List.getLast?_concat, List.dropLast_concat]
  -- the slot is taken out of the list, rewritten with the new entry, and put at the front
  obtain ⟨c₂, hc₂⟩ : ∃ c₂ : Lru κ ν, c₂ = { c.unlink i with
      slots := (c.unlink i).slots.modify i fun t => { t with key := k, value := v },
      map := (c.map.erase s.key).insert k i } := ⟨_, rfl⟩
  have hins : c.insert k v = (some (s.key, s.value), c₂.linkFront i) := by
    rw [hc₂]
    simp [Lru.insert, hk, hfull, htail, unlink_slot_self c hs]
  have hentry : ∀ j, (c₂.linkFront i).entryAt j = if j = i then some (k, v) else c.entryAt j := by
    intro j
    rw [linkFront_entryAt, hc₂, setEntry_entryAt, unlink_entryAt]
    by_cases hij : i = j
    · subst hij
      rw [if_pos rfl, if_pos rfl, hentry_i]
      rfl
    · rw [if_neg hij, if_neg (Ne.symm hij)]
  have hmap : (c₂.linkFront i).map = (c.map.erase s.key).insert k i := by
    rw [linkFront_map, hc₂]
  have hsize : (c₂.linkFront i).slots.size = c.slots.size := by
    rw [linkFront_size, hc₂]
    simp
  have hlinked : c₂.Linked A := by
    have hl := (hsplit ▸ h.linked : c.Linked (A ++ [i])).unlink
    rw [List.append_nil] at hl
    rw [hc₂]
    exact hl.modify i (fun t => { t with key := k, value := v }) (fun _ => ⟨rfl, rfl⟩) _
  have ht : (c₂.linkFront i).Tracks (i :: A) := by
    refine ⟨hlinked.linkFront hout (by rw [hc₂]; simpa using h.mem_iff.1 hi), ?_, ?_, ?_, ?_⟩
    · rw [hsize]
      exact (List.perm_append_singleton i A).symm.trans (hsplit ▸ h.covers)
    · rw [hsize, linkFront_capacity, hc₂, unlink_capacity]
      exact h.bounded
    · rw [hmap]
      exact map_install (h.map_erase hkey_i) (h.keyAt_ne hk) hentry
    · have hk₀ : (c.map.erase s.key)[k]? = none := by
        rw [Std.HashMap.getElem?_erase, hk]
        split <;> rfl
      rw [hmap, size_install hk₀, h.size_erase hkey_i, hsplit]
      simp
  refine ⟨⟨_, by rw [hins]; exact ht⟩, by rw [hins, hspec], ?_⟩
  rw [hins, hspec, ht.recency_front hout hentry, linkFront_capacity, hc₂, unlink_capacity]

/-- Every write acts on the recency list as it says. -/
theorem insert (h : c.Tracks order) (k : κ) (v : ν) : Agrees (c.insert k v) (c.recency.insert k v) := by
  cases hk : c.map[k]? with
  | some i => exact h.insert_present hk v
  | none =>
      by_cases hroom : c.slots.size < c.capacity
      · exact h.insert_fresh hk hroom v
      · exact h.insert_evict hk hroom v

end Tracks

theorem clear_tracks (c : Lru κ ν) : c.clear.Tracks [] := by
  refine ⟨⟨List.nodup_nil, rfl, rfl, fun _ hj => absurd hj List.not_mem_nil⟩, List.Perm.refl _,
    Nat.zero_le _, fun k j => ?_, Std.HashMap.size_empty⟩
  simp [clear, keyAt]

theorem clear_recency (c : Lru κ ν) : c.clear.recency = c.recency.clear := by
  cases c
  rfl

theorem empty_tracks (capacity : Nat) (h : 0 < capacity) : (Lru.empty capacity h : Lru κ ν).Tracks [] :=
  (Lru.empty capacity h).clear_tracks

theorem empty_recency (capacity : Nat) (h : 0 < capacity) :
    (Lru.empty capacity h : Lru κ ν).recency = Recency.empty capacity := rfl

end Lru

end Wayfinder
