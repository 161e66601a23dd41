import Wayfinder.Proofs.Index.Contraction

/-!
# How an index lays out the links of its graph

`Csr.ofLists` writes the link lists of the nodes one after another and records where each begins.
The links of node `n` are the indices from `offset lists n`, the number of links of the nodes
before it, one for each link of its list and in its order (`linksOf_ofLists`, `linkAt_ofLists`);
the node whose range holds an index is its owner (`owner_ofLists`). `find` answers a link of a node
towards the node asked for, and answers whenever the node has one (`find_spec`, `find_isSome`).

`build` contracts the junction graph of a region and puts each link in one of two halves by rank:
a link that climbs stays with its source, any other goes to its target and points back
(`build_eq`, `mem_splitLists_up`, `mem_splitLists_down`).
-/

namespace Wayfinder

/-- A fold that keeps a result once it has one, and makes one at `a`, ends with one. -/
theorem foldl_isSome {α β : Type} {f : Option β → α → Option β} {l : List α} {a : α} (ha : a ∈ l)
    (hkeep : ∀ b x, b.isSome → (f b x).isSome) (htake : ∀ b, (f b a).isSome) (init : Option β) :
    (l.foldl f init).isSome := by
  induction l generalizing init with
  | nil => exact absurd ha List.not_mem_nil
  | cons x l ih =>
    rw [List.foldl_cons]
    rcases List.mem_cons.1 ha with rfl | ha
    · exact foldl_invariant (fun b => b.isSome = true) (htake init) fun b y _ hb => hkeep b y hb
    · exact ih ha _

namespace Csr

/-- Link `i`, with the node it leads to, or comes from, as its other end. -/
def linkAt (c : Csr) (i : Nat) : Link :=
  ⟨c.head.getD i 0, c.cost.getD i 0, c.mid.getD i none, c.feature.getD i 0⟩

/-- The number of links of the nodes before `n`. -/
def offset (lists : Array (Array Link)) (n : Nat) : Nat :=
  ((lists.toList.map Array.size).take n).foldl (· + ·) 0

section OfLists

variable {lists : Array (Array Link)}

/-- A list of running totals starts with its first total. -/
theorem cons_tail_scanl {α β : Type} (f : β → α → β) (b : β) (l : List α) :
    b :: (List.scanl f b l).tail = List.scanl f b l := by
  rcases l with _ | ⟨a, l⟩
  · rfl
  · rw [List.scanl_cons]
    rfl

/-- Pushing running totals onto an array that ends with `t`. -/
theorem foldl_push_total (L : List (Array Link)) (acc : Array Nat) {t : Nat}
    (ht : acc.back? = some t) :
    (L.foldl (fun acc ls => acc.push (acc.back?.getD 0 + ls.size)) acc).toList =
      acc.toList ++ (List.scanl (· + ·) t (L.map Array.size)).tail := by
  induction L generalizing acc t with
  | nil => simp
  | cons ls L ih =>
    simp only [List.foldl_cons, ht, Option.getD_some]
    rw [ih _ Array.back?_push, Array.toList_push, List.map_cons, List.scanl_cons, List.tail_cons,
      List.append_assoc, List.singleton_append, cons_tail_scanl]

/-- The ranges start at the running totals of the sizes of the lists. -/
theorem start_ofLists (lists : Array (Array Link)) :
    (ofLists lists).start.toList = List.scanl (· + ·) 0 (lists.toList.map Array.size) := by
  show (lists.foldl (fun acc ls => acc.push (acc.back?.getD 0 + ls.size)) #[0]).toList = _
  rw [← Array.foldl_toList, foldl_push_total _ #[0] rfl]
  exact cons_tail_scanl _ _ _

theorem start_size_ofLists : (ofLists lists).start.size = lists.size + 1 := by
  rw [← Array.length_toList, start_ofLists, List.length_scanl, List.length_map, Array.length_toList]

theorem start_getD_ofLists {n : Nat} (hn : n ≤ lists.size) (d : Nat) :
    (ofLists lists).start.getD n d = offset lists n := by
  have hlen : n < (List.scanl (· + ·) 0 (lists.toList.map Array.size)).length := by
    rw [List.length_scanl, List.length_map, Array.length_toList]
    omega
  rw [Array.getD_eq_getD_getElem?, ← Array.getElem?_toList, start_ofLists,
    List.getElem?_eq_getElem hlen, Option.getD_some, List.getElem_scanl, offset]

theorem offset_succ {n : Nat} (hn : n < lists.size) :
    offset lists (n + 1) = offset lists n + lists[n].size := by
  unfold offset
  rw [List.take_add_one, List.foldl_append]
  simp [hn]

theorem offset_mono {m n : Nat} (h : m ≤ n) : offset lists m ≤ offset lists n := by
  obtain ⟨k, rfl⟩ := Nat.exists_eq_add_of_le h
  unfold offset
  rw [List.take_add, ← List.sum_eq_foldl_nat, ← List.sum_eq_foldl_nat, List.sum_append]
  exact Nat.le_add_right _ _

theorem getD_of_lt_size {n : Nat} (hn : n < lists.size) : lists.getD n #[] = lists[n] := by
  rw [Array.getD_eq_getD_getElem?, Array.getElem?_eq_getElem hn, Option.getD_some]

theorem lt_size_of_lt {n k : Nat} (hk : k < (lists.getD n #[]).size) : n < lists.size := by
  by_contra hn
  rw [Array.getD_eq_getD_getElem?, Array.getElem?_eq_none (by omega)] at hk
  exact Nat.not_lt_zero _ hk

/-- The link indices of node `n` are the next `size` ones after the links of the nodes before. -/
theorem linksOf_ofLists (n : Nat) :
    (ofLists lists).linksOf n = List.range' (offset lists n) (lists.getD n #[]).size := by
  simp only [linksOf]
  by_cases hn : n < lists.size
  · rw [start_getD_ofLists (Nat.le_of_lt hn), start_getD_ofLists hn, offset_succ hn,
      Nat.add_sub_cancel_left, getD_of_lt_size hn]
  · -- A node without a list has no links, and the range past the last one is empty.
    have hsize : (lists.getD n #[]).size = 0 := by
      rw [Array.getD_eq_getD_getElem?, Array.getElem?_eq_none (by omega)]
      rfl
    have hend : ∀ d, (ofLists lists).start.getD (n + 1) d = d := by
      intro d
      rw [Array.getD_eq_getD_getElem?, Array.getElem?_eq_none (by rw [start_size_ofLists]; omega)]
      rfl
    rw [hsize, hend, Nat.sub_self, List.range'_zero, List.range'_zero]

/-- Index `offset n + k` of the concatenation holds link `k` of node `n`. -/
theorem getElem?_flatMap_offset {n k : Nat} (hk : k < (lists.getD n #[]).size) :
    (lists.toList.flatMap Array.toList)[offset lists n + k]? = some (lists.getD n #[])[k] := by
  have hn := lt_size_of_lt hk
  have hsplit : lists.toList = lists.toList.take n ++ lists[n] :: lists.toList.drop (n + 1) := by
    rw [← Array.getElem_toList (by simpa using hn), ← List.drop_eq_getElem_cons,
      List.take_append_drop]
  have hlen : ((lists.toList.take n).flatMap Array.toList).length = offset lists n := by
    rw [List.length_flatMap, offset, List.map_take, List.sum_eq_foldl_nat]
    simp
  simp only [getD_of_lt_size hn] at hk ⊢
  conv_lhs => rw [hsplit]
  rw [List.flatMap_append, List.flatMap_cons, List.getElem?_append_right (by omega), hlen,
    Nat.add_sub_cancel_left, List.getElem?_append_left (by simpa using hk)]
  simp

theorem linkAt_ofLists {n k : Nat} (hk : k < (lists.getD n #[]).size) :
    (ofLists lists).linkAt (offset lists n + k) = (lists.getD n #[])[k] := by
  have h := getElem?_flatMap_offset hk
  simp only [linkAt, ofLists, Array.getD_eq_getD_getElem?, List.getElem?_toArray,
    List.getElem?_map, h, Option.map_some, Option.getD_some]

/-- Every link of node `n` in the compressed form is a link of its list. -/
theorem linkAt_mem_ofLists {n i : Nat} (hi : i ∈ (ofLists lists).linksOf n) :
    (ofLists lists).linkAt i ∈ (lists.getD n #[]).toList := by
  rw [linksOf_ofLists, List.mem_range'_1] at hi
  obtain ⟨k, hk, rfl⟩ : ∃ k < (lists.getD n #[]).size, i = offset lists n + k :=
    ⟨i - offset lists n, by omega, by omega⟩
  rw [linkAt_ofLists hk]
  exact Array.getElem_mem_toList hk

/-- Every link of the list of node `n` is in the compressed form, among the links of `n`. -/
theorem exists_linkAt_ofLists {n : Nat} {l : Link} (hl : l ∈ (lists.getD n #[]).toList) :
    ∃ i ∈ (ofLists lists).linksOf n, (ofLists lists).linkAt i = l := by
  obtain ⟨k, hk, rfl⟩ := List.getElem_of_mem hl
  have hk' : k < (lists.getD n #[]).size := by simpa using hk
  refine ⟨offset lists n + k, ?_, ?_⟩
  · rw [linksOf_ofLists, List.mem_range'_1]
    omega
  · rw [linkAt_ofLists hk']
    simp

theorem start_eq_map_offset :
    (ofLists lists).start.toList = (List.range (lists.size + 1)).map (offset lists) := by
  apply List.ext_getElem
  · rw [Array.length_toList, start_size_ofLists, List.length_map, List.length_range]
  · intro j h₁ h₂
    have hj : j ≤ lists.size := by
      rw [Array.length_toList, start_size_ofLists] at h₁
      omega
    rw [List.getElem_map, List.getElem_range, ← start_getD_ofLists hj 0, Array.getD_eq_getD_getElem?,
      Array.getElem_toList, Array.getElem?_eq_getElem (by simpa using h₁), Option.getD_some]

/-- A link index belongs to the node whose range holds it. -/
theorem owner_ofLists {n i : Nat} (hi : i ∈ (ofLists lists).linksOf n) :
    (ofLists lists).owner i = n := by
  rw [linksOf_ofLists, List.mem_range'_1] at hi
  have hn : n < lists.size := lt_size_of_lt (k := i - offset lists n) (by omega)
  have hend : i < offset lists (n + 1) := by
    rw [offset_succ hn, ← getD_of_lt_size hn]
    exact hi.2
  -- The ranges of the nodes up to `n` start at or before `i`; those after it start after `i`.
  have hsplit : List.range (lists.size + 1) =
      List.range (n + 1) ++ (List.range (lists.size - n)).map (n + 1 + ·) := by
    rw [← List.range_add]
    congr 1
    omega
  unfold owner
  rw [start_eq_map_offset, List.filter_map, List.length_map, hsplit, List.filter_append,
    List.filter_eq_self.2, List.filter_eq_nil_iff.2, List.append_nil, List.length_range,
    Nat.add_sub_cancel]
  · intro j hj
    obtain ⟨k, -, rfl⟩ := List.mem_map.1 hj
    have hafter : offset lists (n + 1) ≤ offset lists (n + 1 + k) :=
      offset_mono (Nat.le_add_right (n + 1) k)
    simp only [Function.comp_apply, decide_eq_true_eq]
    omega
  · intro j hj
    have hbefore : offset lists j ≤ offset lists n :=
      offset_mono (by simpa [Nat.lt_succ_iff] using hj)
    simp only [Function.comp_apply, decide_eq_true_eq]
    omega

end OfLists

/-- The link `find` answers is a link of `n` towards `h`. -/
theorem find_spec {c : Csr} {n h i : Nat} (hf : c.find n h = some i) :
    i ∈ c.linksOf n ∧ c.head.getD i 0 = h := by
  unfold find at hf
  refine foldl_invariant (fun best => ∀ j, best = some j → j ∈ c.linksOf n ∧ c.head.getD j 0 = h)
    (fun j hj => by cases hj) (fun best k hk hbest j hj => ?_) i hf
  -- Each step keeps its answer, or takes the link it looks at, which leads to `h`.
  split at hj
  · exact hbest j hj
  next hh =>
    have hk' : c.head.getD k 0 = h := by simpa using hh
    split at hj
    · split at hj
      · cases hj
        exact ⟨hk, hk'⟩
      · exact hbest j hj
    · cases hj
      exact ⟨hk, hk'⟩

/-- `find` answers whenever the node has a link towards `h`. -/
theorem find_isSome {c : Csr} {n h i : Nat} (hi : i ∈ c.linksOf n) (hh : c.head.getD i 0 = h) :
    (c.find n h).isSome := by
  unfold find
  refine foldl_isSome hi (fun best k hb => ?_) (fun best => ?_) none
  · obtain ⟨b, rfl⟩ := Option.isSome_iff_exists.1 hb
    dsimp only
    split
    · rfl
    · split <;> rfl
  · rw [if_neg (by simpa using hh)]
    split
    · split <;> rfl
    · rfl

/-- When the list of node `n` holds a link towards `h`, `find` answers a link of that list
towards `h`. -/
theorem find_ofLists {lists : Array (Array Link)} {n : Nat} {l : Link}
    (hl : l ∈ (lists.getD n #[]).toList) :
    ∃ j, (ofLists lists).find n l.other = some j ∧
      (ofLists lists).linkAt j ∈ (lists.getD n #[]).toList ∧
      ((ofLists lists).linkAt j).other = l.other := by
  obtain ⟨i, hi, hli⟩ := exists_linkAt_ofLists hl
  obtain ⟨j, hj⟩ := Option.isSome_iff_exists.1 (find_isSome hi (congrArg Link.other hli))
  obtain ⟨hjmem, hjhead⟩ := find_spec hj
  exact ⟨j, hj, linkAt_mem_ofLists hjmem, hjhead⟩

end Csr

namespace RoutingIndex

/-- Puts link `l` of node `u` in its half of the index: with `u` when it climbs in rank, otherwise
with its other end, pointing back to `u`. -/
def splitLink (rank : Array Nat) (u : Nat) (x : Array (Array Link) × Array (Array Link)) (l : Link) :
    Array (Array Link) × Array (Array Link) :=
  if rank.getD l.other 0 > rank.getD u 0 then (x.1.modify u (·.push l), x.2)
  else (x.1, x.2.modify l.other (·.push { l with other := u }))

/-- The two halves of the links of `g`, node by node. -/
def splitLists (g : Contractor) (rank : Array Nat) : Array (Array Link) × Array (Array Link) :=
  (List.range g.pos.size).foldl (fun x u => (g.outOf u).foldl (splitLink rank u) x)
    (Array.replicate g.pos.size #[], Array.replicate g.pos.size #[])

/-- The junction graph of the features of a region, before contraction. -/
def regionGraph (store : Store) (region readScale : Nat) : Contractor :=
  (((store.regionFeatures region readScale).filterMap fun id =>
    (store.feature region id).toOption).foldl addFeatureLinks (Contractor.empty, #[])).1

/-- What `build` returns: the junction graph of the region, contracted, with its links split by
rank. -/
theorem build_eq {store : Store} {region readScale : Nat} {crossRegion : Bool} {x : RoutingIndex}
    (h : build store region crossRegion readScale = .ok x) :
    x.nodePos = (regionGraph store region readScale).contract.1.pos ∧
      x.rank = (regionGraph store region readScale).contract.2 ∧
      x.up = Csr.ofLists (splitLists (regionGraph store region readScale).contract.1
        (regionGraph store region readScale).contract.2).1 ∧
      x.down = Csr.ofLists (splitLists (regionGraph store region readScale).contract.1
        (regionGraph store region readScale).contract.2).2 := by
  unfold build at h
  simp only at h
  split at h
  · cases h
  · cases h
    refine ⟨rfl, rfl, ?_, ?_⟩
    · rfl
    · rfl

section Split

variable {rank : Array Nat} {u : Nat}

@[simp] theorem splitLink_fst_size (x : Array (Array Link) × Array (Array Link)) (l₀ : Link) :
    (splitLink rank u x l₀).1.size = x.1.size := by
  unfold splitLink
  split <;> simp

@[simp] theorem splitLink_snd_size (x : Array (Array Link) × Array (Array Link)) (l₀ : Link) :
    (splitLink rank u x l₀).2.size = x.2.size := by
  unfold splitLink
  split <;> simp

theorem foldl_splitLink_size (ls : List Link) (x : Array (Array Link) × Array (Array Link)) :
    (ls.foldl (splitLink rank u) x).1.size = x.1.size ∧
      (ls.foldl (splitLink rank u) x).2.size = x.2.size :=
  foldl_invariant (fun y : Array (Array Link) × Array (Array Link) =>
    y.1.size = x.1.size ∧ y.2.size = x.2.size) ⟨rfl, rfl⟩
    fun y l₀ _ hy => by simpa using hy

theorem mem_splitLink_up {x : Array (Array Link) × Array (Array Link)} {l₀ : Link} {a : Nat}
    {l : Link} :
    l ∈ ((splitLink rank u x l₀).1.getD a #[]).toList ↔
      l ∈ (x.1.getD a #[]).toList ∨
        (a = u ∧ u < x.1.size ∧ l = l₀ ∧ rank.getD u 0 < rank.getD l₀.other 0) := by
  unfold splitLink
  split
  next hr =>
    simp only [getD_modify]
    by_cases ha : u = a ∧ u < x.1.size
    · obtain ⟨rfl, hu⟩ := ha
      rw [if_pos ⟨rfl, hu⟩]
      simp only [Array.toList_push, List.mem_append, List.mem_singleton, true_and, hu]
      exact or_congr_right ⟨fun h => ⟨h, hr⟩, fun h => h.1⟩
    · rw [if_neg ha]
      constructor
      · exact .inl
      · rintro (hl | ⟨rfl, hu, -⟩)
        · exact hl
        · exact absurd ⟨rfl, hu⟩ ha
  next hr =>
    constructor
    · exact .inl
    · rintro (hl | ⟨-, -, -, hlt⟩)
      · exact hl
      · exact absurd hlt hr

theorem mem_splitLink_down {x : Array (Array Link) × Array (Array Link)} {l₀ : Link} {b : Nat}
    {y : Link} :
    y ∈ ((splitLink rank u x l₀).2.getD b #[]).toList ↔
      y ∈ (x.2.getD b #[]).toList ∨ (y.other = u ∧ b < x.2.size ∧
        (⟨b, y.cost, y.mid, y.feature⟩ : Link) = l₀ ∧ ¬rank.getD u 0 < rank.getD b 0) := by
  unfold splitLink
  split
  next hr =>
    constructor
    · exact .inl
    · rintro (hy | ⟨-, -, rfl, hlt⟩)
      · exact hy
      · exact absurd hr hlt
  next hr =>
    simp only [getD_modify]
    by_cases hb : l₀.other = b ∧ l₀.other < x.2.size
    · obtain ⟨rfl, hb⟩ := hb
      rw [if_pos ⟨rfl, hb⟩]
      obtain ⟨o, c, m, f⟩ := y
      obtain ⟨o₀, c₀, m₀, f₀⟩ := l₀
      simp only [Array.toList_push, List.mem_append, List.mem_singleton, Link.mk.injEq] at hr ⊢
      grind
    · rw [if_neg hb]
      constructor
      · exact .inl
      · rintro (hy | ⟨-, hlt, rfl, -⟩)
        · exact hy
        · exact absurd ⟨rfl, hlt⟩ hb

theorem mem_foldl_splitLink_up (ls : List Link) (x : Array (Array Link) × Array (Array Link))
    {a : Nat} {l : Link} :
    l ∈ ((ls.foldl (splitLink rank u) x).1.getD a #[]).toList ↔
      l ∈ (x.1.getD a #[]).toList ∨
        (a = u ∧ u < x.1.size ∧ l ∈ ls ∧ rank.getD u 0 < rank.getD l.other 0) := by
  induction ls generalizing x with
  | nil => simp
  | cons l₀ ls ih =>
    rw [List.foldl_cons, ih, mem_splitLink_up, splitLink_fst_size, List.mem_cons]
    grind

theorem mem_foldl_splitLink_down (ls : List Link) (x : Array (Array Link) × Array (Array Link))
    {b : Nat} {y : Link} :
    y ∈ ((ls.foldl (splitLink rank u) x).2.getD b #[]).toList ↔
      y ∈ (x.2.getD b #[]).toList ∨ (y.other = u ∧ b < x.2.size ∧
        (⟨b, y.cost, y.mid, y.feature⟩ : Link) ∈ ls ∧ ¬rank.getD u 0 < rank.getD b 0) := by
  induction ls generalizing x with
  | nil => simp
  | cons l₀ ls ih =>
    rw [List.foldl_cons, ih, mem_splitLink_down, splitLink_snd_size, List.mem_cons]
    grind

variable (g : Contractor)

theorem mem_foldl_split_up (us : List Nat) (x : Array (Array Link) × Array (Array Link))
    {a : Nat} {l : Link} :
    l ∈ ((us.foldl (fun x u => (g.outOf u).foldl (splitLink rank u) x) x).1.getD a #[]).toList ↔
      l ∈ (x.1.getD a #[]).toList ∨
        (a ∈ us ∧ a < x.1.size ∧ l ∈ (g.outOf a).toList ∧ rank.getD a 0 < rank.getD l.other 0) := by
  induction us generalizing x with
  | nil => simp
  | cons u us ih =>
    rw [List.foldl_cons, ih, ← Array.foldl_toList, mem_foldl_splitLink_up,
      (foldl_splitLink_size _ _).1, List.mem_cons]
    grind

theorem mem_foldl_split_down (us : List Nat) (x : Array (Array Link) × Array (Array Link))
    {b : Nat} {y : Link} :
    y ∈ ((us.foldl (fun x u => (g.outOf u).foldl (splitLink rank u) x) x).2.getD b #[]).toList ↔
      y ∈ (x.2.getD b #[]).toList ∨ (y.other ∈ us ∧ b < x.2.size ∧
        (⟨b, y.cost, y.mid, y.feature⟩ : Link) ∈ (g.outOf y.other).toList ∧
          ¬rank.getD y.other 0 < rank.getD b 0) := by
  induction us generalizing x with
  | nil => simp
  | cons u us ih =>
    rw [List.foldl_cons, ih, ← Array.foldl_toList, mem_foldl_splitLink_down,
      (foldl_splitLink_size _ _).2, List.mem_cons]
    grind

variable {g}

theorem getD_replicate_empty (n a : Nat) :
    ((Array.replicate n (#[] : Array Link)).getD a #[]).toList = [] := by
  rw [Array.getD_eq_getD_getElem?, Array.getElem?_replicate]
  split <;> rfl

/-- The upward half keeps with each node its links that climb in rank. -/
theorem mem_splitLists_up (hw : g.Wf) {a : Nat} {l : Link} :
    l ∈ ((splitLists g rank).1.getD a #[]).toList ↔
      l ∈ (g.outOf a).toList ∧ rank.getD a 0 < rank.getD l.other 0 := by
  unfold splitLists
  rw [mem_foldl_split_up, getD_replicate_empty, Array.size_replicate]
  simp only [List.not_mem_nil, false_or, List.mem_range]
  constructor
  · rintro ⟨-, -, hl, hr⟩
    exact ⟨hl, hr⟩
  · rintro ⟨hl, hr⟩
    have ha := hw.lt_of_mem_outOf hl
    exact ⟨ha, ha, hl, hr⟩

/-- The downward half keeps with each node the links into it that do not climb, pointing back. -/
theorem mem_splitLists_down (hw : g.Wf) {b : Nat} {y : Link} :
    y ∈ ((splitLists g rank).2.getD b #[]).toList ↔
      (⟨b, y.cost, y.mid, y.feature⟩ : Link) ∈ (g.outOf y.other).toList ∧
        ¬rank.getD y.other 0 < rank.getD b 0 := by
  unfold splitLists
  rw [mem_foldl_split_down, getD_replicate_empty, Array.size_replicate]
  simp only [List.not_mem_nil, false_or, List.mem_range]
  constructor
  · rintro ⟨-, -, hl, hr⟩
    exact ⟨hl, hr⟩
  · rintro ⟨hl, hr⟩
    exact ⟨hw.lt_of_mem_outOf hl, hw.bounded _ _ hl, hl, hr⟩

end Split

end RoutingIndex

end Wayfinder
