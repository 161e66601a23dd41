import Wayfinder.Proofs.Cache.Serve
import Wayfinder.Road.Graph.Basic

/-!
# Feature lookups through the cache

A road graph looks its features up through a least-recently-used cache, and the cache is meant to
be invisible: a lookup answers what decoding the feature from the store answers, and the counters
record the lookups. This module proves that of one lookup and gives the means to carry it through
any computation in `StateM RoadGraph`.

* `Over g₀ g`: `g` is `g₀` after some lookups. It reads the same store, region, model and scale;
  its cache has the same capacity and still tracks its recency list; every cached feature is what
  `g₀` decodes.
* `Ledger`: what lookups change, seen through the recency list: the cached entries, most recent
  first, and the two counters. `Ledger.lookup` is one lookup: a cached entry moves to the front;
  an id not cached is a miss, and is cached only when it decodes.
* `Serves g₀ x v ids`: from every graph over `g₀`, `x` answers `v`, stays over `g₀`, and changes
  the ledger as the lookups of `ids` in order do. It composes along `bind` and `for` loops, and
  `feature id` serves `g₀.fresh id` with the one lookup `[id]`.
-/

namespace Wayfinder

namespace Recency

variable {κ ν : Type} [BEq κ]

@[simp] theorem get_capacity (m : Recency κ ν) (k : κ) : (m.get k).2.capacity = m.capacity := by
  unfold get
  split <;> rfl

@[simp] theorem insert_capacity (m : Recency κ ν) (k : κ) (v : ν) :
    (m.insert k v).2.capacity = m.capacity := by
  unfold insert
  split
  · rfl
  · split <;> rfl

/-- A write adds its own entry and keeps only entries that were there. -/
theorem mem_of_mem_insert {m : Recency κ ν} {k : κ} {v : ν} {e : κ × ν}
    (h : e ∈ (m.insert k v).2.entries) : e = (k, v) ∨ e ∈ m.entries := by
  unfold insert at h
  split at h
  · exact (List.mem_cons.1 h).imp_right fun he => (List.mem_filter.1 he).1
  · split at h
    · exact List.mem_cons.1 h
    · exact (List.mem_cons.1 h).imp_right fun he => List.dropLast_subset _ he

variable [LawfulBEq κ]

theorem mem_of_peek {m : Recency κ ν} {k : κ} {v : ν} (h : m.peek k = some v) :
    (k, v) ∈ m.entries := by
  simp only [peek, Option.map_eq_some_iff] at h
  obtain ⟨e, he, rfl⟩ := h
  have hk : e.1 = k := by simpa using List.find?_some he
  rw [← hk]
  exact List.mem_of_find?_eq_some he

theorem mem_keys_of_peek {m : Recency κ ν} {k : κ} {v : ν} (h : m.peek k = some v) :
    k ∈ m.keys :=
  List.mem_map.2 ⟨(k, v), mem_of_peek h, rfl⟩

theorem not_mem_keys_of_peek {m : Recency κ ν} {k : κ} (h : m.peek k = none) : k ∉ m.keys := by
  intro hk
  obtain ⟨e, he, rfl⟩ := List.mem_map.1 hk
  simp only [peek, Option.map_eq_none_iff, List.find?_eq_none, beq_iff_eq] at h
  exact h e he rfl

/-- A lookup keeps only entries that were there. -/
theorem mem_of_mem_get {m : Recency κ ν} {k : κ} {e : κ × ν} (h : e ∈ (m.get k).2.entries) :
    e ∈ m.entries := by
  unfold get at h
  split at h
  next v hv =>
    rcases List.mem_cons.1 h with rfl | h
    · exact mem_of_peek hv
    · exact (List.mem_filter.1 h).1
  next => exact h

/-- A key other than `k` keeps its entry when `k`'s is dropped. -/
theorem mem_keys_without {m : Recency κ ν} {k k' : κ} (hk' : k' ∈ m.keys) (hne : k' ≠ k) :
    k' ∈ (m.without k).map Prod.fst := by
  obtain ⟨e, he, rfl⟩ := List.mem_map.1 hk'
  exact List.mem_map_of_mem (List.mem_filter.2 ⟨he, by simpa using hne⟩)

/-- A lookup moves its key to the front and keeps every other key. -/
theorem mem_keys_get {m : Recency κ ν} (k : κ) {k' : κ} (hk' : k' ∈ m.keys ∨ k' = k)
    (hk : k ∈ m.keys) : k' ∈ (m.get k).2.keys := by
  unfold get
  cases hp : m.peek k with
  | none => exact absurd hk (not_mem_keys_of_peek hp)
  | some v =>
    by_cases hne : k' = k
    · simp [keys, hne]
    · exact List.mem_cons_of_mem _ (mem_keys_without (hk'.resolve_right hne) hne)

/-- A write puts its key at the front and keeps every other key, unless it adds a key to a full
list: then the last key goes. -/
theorem mem_keys_insert {m : Recency κ ν} (k : κ) (v : ν) {k' : κ} (hk' : k' ∈ m.keys) :
    k' ∈ (m.insert k v).2.keys ∨
      (k ∉ m.keys ∧ m.capacity ≤ m.size ∧ m.keys.getLast? = some k') := by
  unfold insert
  by_cases hc : m.contains k
  · left
    rw [if_pos hc]
    by_cases hne : k' = k
    · simp [keys, hne]
    · exact List.mem_cons_of_mem _ (mem_keys_without hk' hne)
  · rw [if_neg hc]
    have hnot : k ∉ m.keys := fun h => hc ((contains_iff m k).2 h)
    by_cases hs : m.size < m.capacity
    · left
      rw [if_pos hs]
      exact List.mem_cons_of_mem _ hk'
    · rw [if_neg hs]
      obtain ⟨e, he, rfl⟩ := List.mem_map.1 hk'
      -- The entry is kept, or it is the last one and is dropped.
      have hne : m.entries ≠ [] := List.ne_nil_of_mem he
      rw [← List.dropLast_concat_getLast hne] at he
      rcases List.mem_append.1 he with he | he
      · exact .inl (List.mem_cons_of_mem _ (List.mem_map_of_mem he))
      · refine .inr ⟨hnot, Nat.le_of_not_lt hs, ?_⟩
        rw [keys, List.getLast?_map, List.getLast?_eq_some_getLast hne, List.mem_singleton.1 he]
        rfl

end Recency

namespace RoadGraph

/-- Feature `id` as decoded from the store: what a graph without a cache answers. -/
def fresh (g : RoadGraph) (id : Nat) : Option Decoded := (g.decode id).toOption

/-- What lookups change, seen through the recency list: the cached entries, most recent first,
and the counters. -/
structure Ledger where
  cached : Recency Nat Decoded
  accesses : Nat
  misses : Nat

/-- The ledger of a graph. -/
def ledger (g : RoadGraph) : Ledger := ⟨g.cache.recency, g.accesses, g.misses⟩

namespace Ledger

/-- One lookup of `id`, decoding with `dec`: a cached entry moves to the front; an id not cached
is a miss, and is cached only when it decodes. -/
def lookup (dec : Nat → Except RoadError Decoded) (l : Ledger) (id : Nat) : Ledger :=
  if id ∈ l.cached.keys then { l with cached := (l.cached.get id).2, accesses := l.accesses + 1 }
  else
    { cached :=
        match dec id with
        | .ok d => (l.cached.insert id d).2
        | .error _ => l.cached
      accesses := l.accesses + 1
      misses := l.misses + 1 }

/-- The lookups of `ids`, in order. -/
def lookups (dec : Nat → Except RoadError Decoded) (l : Ledger) (ids : List Nat) : Ledger :=
  ids.foldl (lookup dec) l

variable (dec : Nat → Except RoadError Decoded) (l : Ledger)

@[simp] theorem lookups_nil : l.lookups dec [] = l := rfl

theorem lookups_cons (id : Nat) (ids : List Nat) :
    l.lookups dec (id :: ids) = (l.lookup dec id).lookups dec ids := rfl

theorem lookups_append (ids ids' : List Nat) :
    l.lookups dec (ids ++ ids') = (l.lookups dec ids).lookups dec ids' :=
  List.foldl_append

@[simp] theorem lookup_accesses (id : Nat) : (l.lookup dec id).accesses = l.accesses + 1 := by
  unfold lookup
  split <;> rfl

/-- Every lookup is one access. -/
theorem lookups_accesses (ids : List Nat) :
    (l.lookups dec ids).accesses = l.accesses + ids.length := by
  induction ids generalizing l with
  | nil => rfl
  | cons id ids ih =>
    rw [lookups_cons, ih, lookup_accesses, List.length_cons]
    omega

/-- After a lookup of a feature that decodes, or that was cached, it is cached. -/
theorem mem_keys_lookup_self (id : Nat) (h : (∃ d, dec id = .ok d) ∨ id ∈ l.cached.keys) :
    id ∈ (l.lookup dec id).cached.keys := by
  unfold lookup
  by_cases hmem : id ∈ l.cached.keys
  · rw [if_pos hmem]
    exact Recency.mem_keys_get id (.inr rfl) hmem
  · rw [if_neg hmem]
    obtain ⟨d, hd⟩ := h.resolve_right hmem
    simp only [hd]
    by_cases hc : l.cached.contains id
    · exact absurd ((Recency.contains_iff _ _).1 hc) hmem
    · unfold Recency.insert
      rw [if_neg hc]
      split <;> exact List.mem_cons_self

/-- A cached feature stays cached through a lookup, unless the lookup missed on a full cache and
evicted it as the least recently used. -/
theorem mem_keys_lookup (id : Nat) {k : Nat} (hk : k ∈ l.cached.keys) :
    k ∈ (l.lookup dec id).cached.keys ∨
      (id ∉ l.cached.keys ∧ l.cached.capacity ≤ l.cached.size ∧ l.cached.keys.getLast? = some k) := by
  unfold lookup
  by_cases hmem : id ∈ l.cached.keys
  · rw [if_pos hmem]
    exact .inl (Recency.mem_keys_get id (.inl hk) hmem)
  · rw [if_neg hmem]
    cases dec id with
    | ok d => exact Recency.mem_keys_insert id d hk
    | error e => exact .inl hk

end Ledger

/-- `g` is `g₀` after some lookups: the same store, region, model and scale, a cache of the same
capacity that tracks its recency list, and every cached feature as `g₀` decodes it. -/
structure Over (g₀ g : RoadGraph) : Prop where
  store : g.store = g₀.store
  region : g.region = g₀.region
  model : g.model = g₀.model
  readScale : g.readScale = g₀.readScale
  capacity : g.cache.capacity = g₀.cache.capacity
  tracks : ∃ order, g.cache.Tracks order
  decoded : ∀ e ∈ g.cache.recency.entries, g₀.decode e.1 = .ok e.2

namespace Over

variable {g₀ g : RoadGraph}

theorem decode_eq (h : Over g₀ g) : g.decode = g₀.decode := by
  funext id
  simp only [decode, h.store, h.region, h.model]

theorem featuresNear_eq (h : Over g₀ g) : g.featuresNear = g₀.featuresNear := by
  funext p radius
  simp only [featuresNear, h.store, h.region, h.readScale]

/-- Replacing the cache and the counters keeps a graph over `g₀` when the new cache tracks its
list, has the old capacity and holds only features as `g₀` decodes them. -/
theorem withCache (h : Over g₀ g) {c : Lru Nat Decoded} {order : List Nat} (ht : c.Tracks order)
    (hcap : c.capacity = g.cache.capacity)
    (hdec : ∀ e ∈ c.recency.entries, g₀.decode e.1 = .ok e.2) (a m : Nat) :
    Over g₀ { g with cache := c, accesses := a, misses := m } :=
  ⟨h.store, h.region, h.model, h.readScale, hcap.trans h.capacity, ⟨order, ht⟩, hdec⟩

theorem softReset (h : Over g₀ g) : Over g₀ g.softReset := by
  refine h.withCache (g.cache.clear_tracks) rfl ?_ g.accesses g.misses
  intro e he
  rw [Lru.clear_recency] at he
  exact absurd he List.not_mem_nil

end Over

/-- A fresh graph is over itself. -/
theorem over_create (store : Store) (region : Nat) (model : SpeedModel) (capacity : Nat)
    (h : 0 < capacity) (readScale : Nat) :
    Over (create store region model capacity h readScale) (create store region model capacity h readScale) :=
  ⟨rfl, rfl, rfl, rfl, rfl, ⟨[], Lru.empty_tracks capacity h⟩,
    fun _ he => absurd he List.not_mem_nil⟩

/-- A run from `g` that answered `v`, stayed over `g₀` and looked up `ids`. -/
structure Served {α : Type} (g₀ g : RoadGraph) (r : α × RoadGraph) (v : α) (ids : List Nat) :
    Prop where
  value : r.1 = v
  stays : Over g₀ r.2
  ledger : r.2.ledger = g.ledger.lookups g₀.decode ids

/-- From every graph over `g₀`, `x` answers `v`, stays over `g₀` and looks up `ids`. -/
def Serves {α : Type} (g₀ : RoadGraph) (x : StateM RoadGraph α) (v : α) (ids : List Nat) : Prop :=
  ∀ g, Over g₀ g → Served g₀ g (x.run g) v ids

section Serves

variable {α β : Type} {g₀ : RoadGraph}

theorem serves_pure (g₀ : RoadGraph) (v : α) : Serves g₀ (pure v) v [] :=
  fun _ hg => ⟨rfl, hg, rfl⟩

/-- Lookups of a computation and its continuation add up. -/
theorem Serves.bind {x : StateM RoadGraph α} {f : α → StateM RoadGraph β} {v : α} {w : β}
    {ids ids' : List Nat} (hx : Serves g₀ x v ids) (hf : Serves g₀ (f v) w ids') :
    Serves g₀ (x >>= f) w (ids ++ ids') := by
  intro g hg
  obtain ⟨hv, hover, hledger⟩ := hx g hg
  obtain ⟨hw, hover', hledger'⟩ := hf _ hover
  have hrun : (x >>= f).run g = (f (x.run g).1).run (x.run g).2 := rfl
  rw [hv] at hrun
  refine ⟨?_, ?_, ?_⟩
  · rw [hrun, hw]
  · rw [hrun]
    exact hover'
  · rw [hrun, hledger', hledger, Ledger.lookups_append]

/-- A continuation that only answers adds no lookup. -/
theorem Serves.bind_pure {x : StateM RoadGraph α} {f : α → StateM RoadGraph β} {v : α} {w : β}
    {ids : List Nat} (hx : Serves g₀ x v ids) (hf : f v = pure w) : Serves g₀ (x >>= f) w ids := by
  have hw : Serves g₀ (f v) w [] := by
    rw [hf]
    exact serves_pure g₀ w
  have h := hx.bind hw
  rwa [List.append_nil] at h

theorem Serves.map {x : StateM RoadGraph α} {f : α → β} {v : α} {ids : List Nat}
    (hx : Serves g₀ x v ids) : Serves g₀ (x >>= fun a => pure (f a)) (f v) ids :=
  hx.bind_pure rfl

/-- Reading the graph is harmless when only what all graphs over `g₀` share is read. -/
theorem Serves.get_bind {f : RoadGraph → StateM RoadGraph α} {v : α} {ids : List Nat}
    (hf : ∀ g, Over g₀ g → f g = f g₀) (h : Serves g₀ (f g₀) v ids) :
    Serves g₀ (get >>= f) v ids := by
  intro g hg
  have hrun : (get >>= f).run g = (f g).run g := rfl
  rw [hrun, hf g hg]
  exact h g hg

/-- A loop whose body, at each item and accumulator, yields the next accumulator with the item's
lookups: by induction on the items, the fold of the bodies with all lookups in order. -/
theorem serves_forIn {γ : Type} (l : List γ) (init : β)
    {body : γ → β → StateM RoadGraph (ForInStep β)} {next : γ → β → β} {look : γ → List Nat}
    {ids : List Nat} (hbody : ∀ a b, Serves g₀ (body a b) (.yield (next a b)) (look a))
    (hids : l.flatMap look = ids) :
    Serves g₀ (forIn l init body) (l.foldl (fun b a => next a b) init) ids := by
  subst hids
  induction l generalizing init with
  | nil => exact serves_pure g₀ init
  | cons a l ih =>
    rw [List.forIn_cons, List.foldl_cons, List.flatMap_cons]
    exact (hbody a init).bind (ih (next a init))

end Serves

/-! ## One lookup -/

section Feature

variable {g : RoadGraph} {id : Nat}

theorem feature_hit {d : Decoded} {c : Lru Nat Decoded} (h : g.cache.get id = (some d, c)) :
    (feature id).run g = (some d, { g with cache := c, accesses := g.accesses + 1 }) := by
  simp [feature, h]
  rfl

theorem feature_decoded {d : Decoded} {c : Lru Nat Decoded} (h : g.cache.get id = (none, c))
    (hd : g.decode id = .ok d) :
    (feature id).run g = (some d,
      { g with cache := (g.cache.insert id d).2, accesses := g.accesses + 1,
               misses := g.misses + 1 }) := by
  have hd' : ({ g with accesses := g.accesses + 1, misses := g.misses + 1 } : RoadGraph).decode id =
      .ok d := hd
  simp [feature, h, hd']
  rfl

theorem feature_failed {e : RoadError} {c : Lru Nat Decoded} (h : g.cache.get id = (none, c))
    (hd : g.decode id = .error e) :
    (feature id).run g = (none, { g with accesses := g.accesses + 1, misses := g.misses + 1 }) := by
  have hd' : ({ g with accesses := g.accesses + 1, misses := g.misses + 1 } : RoadGraph).decode id =
      .error e := hd
  simp [feature, h, hd']
  rfl

end Feature

/-- One lookup answers what decoding answers, whatever the cache holds; the cache and counters
change as `Ledger.lookup` says. -/
theorem serves_feature (g₀ : RoadGraph) (id : Nat) : Serves g₀ (feature id) (g₀.fresh id) [id] := by
  intro g hg
  obtain ⟨order, ht⟩ := hg.tracks
  have hget := ht.get id
  cases hp : g.cache.recency.peek id with
  | some d =>
    -- A hit: the entry was decoded by `g₀` when it was cached.
    have hdec : g₀.decode id = .ok d := hg.decoded (id, d) (Recency.mem_of_peek hp)
    have hc : g.cache.get id = (some d, (g.cache.get id).2) :=
      Prod.ext (hget.reply.trans (by simp [Recency.get, hp])) rfl
    obtain ⟨order', ht'⟩ := hget.tracks
    rw [feature_hit hc]
    refine ⟨by rw [fresh, hdec]; rfl, hg.withCache ht' ?_ ?_ _ _, ?_⟩
    · rw [← Lru.recency_capacity, hget.recency, Recency.get_capacity, Lru.recency_capacity]
    · intro e he
      rw [hget.recency] at he
      exact hg.decoded e (Recency.mem_of_mem_get he)
    · simp only [ledger, Ledger.lookups_cons, Ledger.lookups_nil, Ledger.lookup,
        if_pos (Recency.mem_keys_of_peek hp), hget.recency]
  | none =>
    -- A miss: the store is asked, and only a decoded feature is cached.
    have hmem : id ∉ g.cache.recency.keys := Recency.not_mem_keys_of_peek hp
    have hc : g.cache.get id = (none, (g.cache.get id).2) :=
      Prod.ext (hget.reply.trans (by simp [Recency.get, hp])) rfl
    cases hdec : g₀.decode id with
    | ok d =>
      have hins := ht.insert id d
      obtain ⟨order', ht'⟩ := hins.tracks
      rw [feature_decoded hc (by rw [hg.decode_eq]; exact hdec)]
      refine ⟨by rw [fresh, hdec]; rfl, hg.withCache ht' ?_ ?_ _ _, ?_⟩
      · rw [← Lru.recency_capacity, hins.recency, Recency.insert_capacity, Lru.recency_capacity]
      · intro e he
        rw [hins.recency] at he
        rcases Recency.mem_of_mem_insert he with rfl | he
        · exact hdec
        · exact hg.decoded e he
      · simp only [ledger, Ledger.lookups_cons, Ledger.lookups_nil, Ledger.lookup, if_neg hmem,
          hdec, hins.recency]
    | error e =>
      rw [feature_failed hc (by rw [hg.decode_eq]; exact hdec)]
      refine ⟨by rw [fresh, hdec]; rfl, hg.withCache ht rfl hg.decoded _ _, ?_⟩
      simp only [ledger, Ledger.lookups_cons, Ledger.lookups_nil, Ledger.lookup, if_neg hmem, hdec]

end RoadGraph

end Wayfinder
