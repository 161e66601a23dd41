import Wayfinder.Proofs.Index.Arcs

/-!
# Contraction keeps its shortcuts resolvable

Contraction takes the nodes one by one and gives each the next rank. Removing a node adds a
shortcut for each pair of links through it that has no cheaper way around, or lowers the cost of
the link already joining the pair; the shortcut remembers the node it bypasses. Shortcuts only
ever join live nodes, so once a node is contracted every link touching it stays as it is
(`Bypass.frozen`).

`Contracting real g rank next` is what holds once `next` nodes are contracted. The contracted
nodes have distinct ranks below `next`. Every shortcut bypasses a contracted node through two links
that are present, and costs what they cost together, capped. An end of a shortcut that is itself
contracted ranks above the node bypassed. Every other link is a road link along a feature that
`real` accepts, at a cost that fits in 32 bits. Removing a live node keeps it (`Contracting.removeNode`).

The loop takes queue entries until the queue is empty. An entry either contracts its node, or,
when the node's priority has grown, goes back with the new priority. `workLeft`, the entries whose
priority is out of date plus the square of the number of entries, drops with every entry taken,
and the fuel `(n + 1)² + 1` exceeds it at the start. So every node is contracted, with the ranks
`0, …, n - 1` (`Original.contract`).
-/

namespace Wayfinder

theorem getD_setIfInBounds {α : Type} (a : Array α) (i j : Nat) (x d : α) :
    (a.setIfInBounds i x).getD j d = if i = j ∧ i < a.size then x else a.getD j d := by
  simp only [Array.getD_eq_getD_getElem?, Array.getElem?_setIfInBounds]
  by_cases hij : i = j
  · subst hij
    by_cases hi : i < a.size <;> simp [hi]
  · simp [hij]

/-- Marking one more node adds one to the count of marked nodes below `n` when it is below `n`. -/
theorem length_filter_mark (c : Nat → Bool) {v : Nat} (hv : c v = false) (n : Nat) :
    ((List.range n).filter fun x => decide (x = v) || c x).length =
      ((List.range n).filter c).length + if v < n then 1 else 0 := by
  induction n with
  | zero => rfl
  | succ n ih =>
    rw [List.range_succ, List.filter_append, List.filter_append, List.length_append,
      List.length_append, ih]
    by_cases hn : n = v
    · subst hn
      simp [hv]
    · have hone : List.filter (fun x => decide (x = v) || c x) [n] = List.filter c [n] := by
        simp [List.filter_cons, hn]
      rw [hone]
      by_cases hvn : v < n
      · rw [if_pos hvn, if_pos (by omega)]
        omega
      · rw [if_neg hvn, if_neg (by omega)]
        omega

namespace Contractor

/-- The state of contraction once `next` nodes are contracted. -/
structure Contracting (real : Nat → Prop) (g : Contractor) (rank : Array Nat) (next : Nat) :
    Prop where
  wf : g.Wf
  rank_size : rank.size = g.pos.size
  ranked : ∀ v, g.isContracted v = true → rank.getD v 0 < next
  distinct : ∀ v w, g.isContracted v = true → g.isContracted w = true →
    rank.getD v 0 = rank.getD w 0 → v = w
  count : next = ((List.range g.pos.size).filter g.isContracted).length
  shortcut : ∀ u, ∀ l ∈ (g.outOf u).toList, ∀ m, l.mid = some m →
    g.isContracted m = true ∧
      (∃ l₁ ∈ (g.outOf u).toList, l₁.other = m ∧ ∃ l₂ ∈ (g.outOf m).toList, l₂.other = l.other ∧
        l.cost = addCost l₁.cost l₂.cost) ∧
      (g.isContracted u = true → rank.getD m 0 < rank.getD u 0) ∧
      (g.isContracted l.other = true → rank.getD m 0 < rank.getD l.other 0)
  road : ∀ u, ∀ l ∈ (g.outOf u).toList, l.mid = none → real l.feature ∧ l.cost ≤ costCap

variable {real : Nat → Prop} {g : Contractor}

/-- At most every node is contracted. -/
theorem Contracting.next_le {rank : Array Nat} {next : Nat} (h : Contracting real g rank next) :
    next ≤ g.pos.size := by
  rw [h.count]
  calc ((List.range _).filter _).length ≤ (List.range _).length := List.length_filter_le _ _
    _ = _ := List.length_range

/-- Before contraction nothing is contracted and every link is a road link. -/
theorem Original.contracting (h : Original real g) :
    Contracting real g (Array.replicate g.pos.size 0) 0 where
  wf := h.wf
  rank_size := Array.size_replicate
  ranked v hv := by
    rw [h.live v] at hv
    cases hv
  distinct v _ hv := by
    rw [h.live v] at hv
    cases hv
  count := by
    have hnone : (List.range g.pos.size).filter g.isContracted = [] :=
      List.filter_eq_nil_iff.2 fun x _ => by simp [h.live x]
    rw [hnone]
    rfl
  shortcut u l hl m hm := by
    rw [(h.road u l hl).1] at hm
    cases hm
  road u l hl _ := (h.road u l hl).2

/-! ## Removing one node -/

/-- `h` is `g` with some of the shortcuts of `v` added: links touching a contracted node or `v`
are as in `g`, and every other link is one of `g` or a shortcut through `v` between live nodes. -/
structure Bypass (g : Contractor) (v : Nat) (h : Contractor) : Prop where
  wf : h.Wf
  pos : h.pos = g.pos
  contracted : h.contracted = g.contracted
  frozen : ∀ x l, (g.isContracted x = true ∨ x = v ∨ g.isContracted l.other = true ∨ l.other = v) →
    (l ∈ (h.outOf x).toList ↔ l ∈ (g.outOf x).toList)
  added : ∀ u, ∀ l ∈ (h.outOf u).toList, l ∈ (g.outOf u).toList ∨
    (l.mid = some v ∧ g.isContracted u = false ∧ g.isContracted l.other = false ∧ u ≠ v ∧
      l.other ≠ v ∧ ∃ l₁ ∈ (g.outOf u).toList, l₁.other = v ∧ ∃ l₂ ∈ (g.outOf v).toList,
        l₂.other = l.other ∧ l.cost = addCost l₁.cost l₂.cost)

theorem bypass_refl (hw : g.Wf) (v : Nat) : Bypass g v g :=
  ⟨hw, rfl, rfl, fun _ _ _ => Iff.rfl, fun _ _ hl => .inl hl⟩

/-- Adding one shortcut of `v` between live nodes touches no link of a contracted node or of `v`. -/
theorem Bypass.addLink {v : Nat} {h : Contractor} (hb : Bypass g v h) (hw : g.Wf) {u w c : Nat}
    (hs : (u, w, c) ∈ g.shortcuts v) : Bypass g v (h.addLink u w c (some v) costCap) := by
  obtain ⟨l₁, hl₁, hv₁, l₂, hl₂, hw₂, hc, huv, hwv, hwu, hliveu, hlivew⟩ := mem_shortcuts hw hs
  have hu : u < h.pos.size := hb.pos ▸ hw.lt_of_mem_outOf hl₁
  have hwn : w < h.pos.size := hb.pos ▸ hw₂ ▸ hw.bounded v l₂ hl₂
  by_cases hwr : h.Writes u w c
  swap
  · rw [addLink_of_not_writes hb.wf hwr]
    exact hb
  refine ⟨hb.wf.addLink hu hwn, by simp [hb.pos], by simp [hb.contracted], fun x l hx => ?_,
    fun x l hl => ?_⟩
  · by_cases hxu : x = u
    · subst hxu
      -- A frozen link is not the pair `x → w`, both of whose ends are live.
      have hlw : l.other ≠ w := by
        rintro rfl
        rcases hx with hx | hx | hx | hx
        · rw [hliveu] at hx
          cases hx
        · exact huv hx
        · rw [hlivew] at hx
          cases hx
        · exact hwv hx
      rw [mem_outOf_addLink hb.wf hu hwr, ← hb.frozen x l hx]
      constructor
      · rintro (rfl | ⟨hl, -⟩)
        · exact absurd rfl hlw
        · exact hl
      · exact fun hl => .inr ⟨hl, hlw⟩
    · rw [outOf_addLink_of_ne hxu]
      exact hb.frozen x l hx
  · by_cases hxu : x = u
    · subst hxu
      rcases (mem_outOf_addLink hb.wf hu hwr).1 hl with rfl | ⟨hl, -⟩
      · exact .inr ⟨rfl, hliveu, hlivew, huv, hwv, l₁, hl₁, hv₁, l₂, hl₂, hw₂, hc⟩
      · exact hb.added x l hl
    · rw [outOf_addLink_of_ne hxu] at hl
      exact hb.added x l hl

/-- All the shortcuts of `v`, added one after another. -/
theorem bypass_shortcuts (hw : g.Wf) (v : Nat) :
    Bypass g v ((g.shortcuts v).foldl (fun h x => h.addLink x.1 x.2.1 x.2.2 (some v) costCap) g) :=
  foldl_invariant (Bypass g v) (bypass_refl hw v) fun _ _ hs hb => hb.addLink hw hs

theorem outOf_removeNode (v x : Nat) :
    (g.removeNode v).outOf x =
      ((g.shortcuts v).foldl (fun h x => h.addLink x.1 x.2.1 x.2.2 (some v) costCap) g).outOf x :=
  rfl

theorem removeNode_pos (v : Nat) : (g.removeNode v).pos = g.pos :=
  foldl_invariant (fun h : Contractor => h.pos = g.pos) rfl fun _ _ _ hh => by rw [addLink_pos, hh]

/-- Removing `v` contracts `v` and no other node. -/
theorem isContracted_removeNode (hsize : g.contracted.size = g.pos.size) {v : Nat}
    (hv : v < g.pos.size) (x : Nat) :
    (g.removeNode v).isContracted x = (decide (x = v) || g.isContracted x) := by
  have hc : ((g.shortcuts v).foldl (fun h x => h.addLink x.1 x.2.1 x.2.2 (some v) costCap) g).contracted =
      g.contracted :=
    foldl_invariant (fun h : Contractor => h.contracted = g.contracted) rfl
      fun _ _ _ hh => by rw [addLink_contracted, hh]
  unfold removeNode
  simp only [isContracted, getD_setIfInBounds, hc, hsize]
  by_cases hx : x = v
  · subst hx
    simp [hv]
  · simp [hx, Ne.symm hx]

/-- Removing a node keeps the links well formed. -/
theorem Wf.removeNode (hw : g.Wf) (v : Nat) : (g.removeNode v).Wf := by
  have hb := bypass_shortcuts hw v
  refine hb.wf.congr ((removeNode_pos v).trans hb.pos.symm) rfl rfl ?_
  unfold Contractor.removeNode
  simp only [Array.size_setIfInBounds]

theorem getD_setIfInBounds_of_lt {α : Type} (a : Array α) {i : Nat} (hi : i < a.size) (x d : α)
    (j : Nat) : (a.setIfInBounds i x).getD j d = if j = i then x else a.getD j d := by
  rw [getD_setIfInBounds]
  by_cases hj : j = i
  · subst hj
    simp [hi]
  · simp [hj, Ne.symm hj]

/-- The ranks once `next` nodes are contracted: the contracted nodes have distinct ranks below
`next`, and `next` counts them. -/
structure Ranked (g : Contractor) (rank : Array Nat) (next : Nat) : Prop where
  rank_size : rank.size = g.pos.size
  ranked : ∀ v, g.isContracted v = true → rank.getD v 0 < next
  distinct : ∀ v w, g.isContracted v = true → g.isContracted w = true →
    rank.getD v 0 = rank.getD w 0 → v = w
  count : next = ((List.range g.pos.size).filter g.isContracted).length

theorem Contracting.toRanked {rank : Array Nat} {next : Nat} (h : Contracting real g rank next) :
    Ranked g rank next :=
  ⟨h.rank_size, h.ranked, h.distinct, h.count⟩

/-- Removing a live node gives it the next rank. -/
theorem Ranked.removeNode {rank : Array Nat} {next : Nat} (h : Ranked g rank next) (hw : g.Wf)
    {v : Nat} (hv : v < g.pos.size) (hlive : g.isContracted v = false) :
    Ranked (g.removeNode v) (rank.setIfInBounds v next) (next + 1) := by
  have hpos : (g.removeNode v).pos = g.pos := removeNode_pos v
  have hcon := isContracted_removeNode hw.contracted_size hv
  have hrank := getD_setIfInBounds_of_lt rank (h.rank_size ▸ hv) next 0
  refine ⟨by rw [Array.size_setIfInBounds, h.rank_size, hpos], fun x hx => ?_,
    fun x y hx hy hxy => ?_, ?_⟩
  · rw [hcon] at hx
    rw [hrank]
    by_cases hxv : x = v
    · rw [if_pos hxv]
      omega
    · simp only [hxv, decide_false, Bool.false_or] at hx
      rw [if_neg hxv]
      have := h.ranked x hx
      omega
  · rw [hcon] at hx hy
    rw [hrank, hrank] at hxy
    by_cases hxv : x = v <;> by_cases hyv : y = v
    · rw [hxv, hyv]
    · simp only [hyv, decide_false, Bool.false_or] at hy
      rw [if_pos hxv, if_neg hyv] at hxy
      have := h.ranked y hy
      omega
    · simp only [hxv, decide_false, Bool.false_or] at hx
      rw [if_neg hxv, if_pos hyv] at hxy
      have := h.ranked x hx
      omega
    · simp only [hxv, hyv, decide_false, Bool.false_or] at hx hy
      rw [if_neg hxv, if_neg hyv] at hxy
      exact h.distinct x y hx hy hxy
  · have hfun : (g.removeNode v).isContracted = fun x => decide (x = v) || g.isContracted x :=
      funext hcon
    rw [hfun, hpos, length_filter_mark _ hlive, if_pos hv, h.count]

/-- Removing a live node keeps the state of contraction, the node taking the next rank. -/
theorem Contracting.removeNode {rank : Array Nat} {next : Nat} (h : Contracting real g rank next)
    {v : Nat} (hv : v < g.pos.size) (hlive : g.isContracted v = false) :
    Contracting real (g.removeNode v) (rank.setIfInBounds v next) (next + 1) := by
  have hb := bypass_shortcuts h.wf v
  have hcon := isContracted_removeNode h.wf.contracted_size hv
  have hr := h.toRanked.removeNode h.wf hv hlive
  have hrank := getD_setIfInBounds_of_lt rank (h.rank_size ▸ hv) next 0
  -- A node contracted before `v` is not `v`, and keeps its rank.
  have hold : ∀ x, g.isContracted x = true → x ≠ v ∧ (rank.setIfInBounds v next).getD x 0 = rank.getD x 0 := by
    intro x hx
    have hxv : x ≠ v := fun hxv => by rw [hxv, hlive] at hx; cases hx
    exact ⟨hxv, by rw [hrank, if_neg hxv]⟩
  refine ⟨h.wf.removeNode v, hr.rank_size, hr.ranked, hr.distinct, hr.count,
    fun u l hl m hm => ?_, fun u l hl hm => ?_⟩
  · rw [outOf_removeNode] at hl
    rcases hb.added u l hl with hl | ⟨hmv, hliveu, hliveo, huv, hov, l₁, hl₁, hv₁, l₂, hl₂, ho₂, hc⟩
    · -- A link of `g`: its bypassed node was contracted before, so both its links are frozen.
      obtain ⟨hm, ⟨l₁, hl₁, hm₁, l₂, hl₂, ho₂, hc⟩, hru, hro⟩ := h.shortcut u l hl m hm
      obtain ⟨hmv, hrm⟩ := hold m hm
      refine ⟨by rw [hcon, hm, Bool.or_true], ⟨l₁, ?_, hm₁, l₂, ?_, ho₂, hc⟩, fun hu => ?_,
        fun ho => ?_⟩
      · rw [outOf_removeNode, hb.frozen u l₁ (.inr (.inr (.inl (hm₁ ▸ hm))))]
        exact hl₁
      · rw [outOf_removeNode, hb.frozen m l₂ (.inl hm)]
        exact hl₂
      · rw [hcon] at hu
        rw [hrm]
        by_cases huv : u = v
        · rw [hrank, if_pos huv]
          exact h.ranked m hm
        · simp only [huv, decide_false, Bool.false_or] at hu
          rw [(hold u hu).2]
          exact hru hu
      · rw [hcon] at ho
        rw [hrm]
        by_cases hov : l.other = v
        · rw [hrank, if_pos hov]
          exact h.ranked m hm
        · simp only [hov, decide_false, Bool.false_or] at ho
          rw [(hold l.other ho).2]
          exact hro ho
    · -- A shortcut through `v`, between nodes still live.
      rw [hm] at hmv
      obtain rfl := Option.some.inj hmv
      refine ⟨by rw [hcon]; simp, ⟨l₁, ?_, hv₁, l₂, ?_, ho₂, hc⟩, fun hu => ?_, fun ho => ?_⟩
      · rw [outOf_removeNode, hb.frozen u l₁ (.inr (.inr (.inr hv₁)))]
        exact hl₁
      · rw [outOf_removeNode, hb.frozen m l₂ (.inr (.inl rfl))]
        exact hl₂
      · rw [hcon] at hu
        simp [huv, hliveu] at hu
      · rw [hcon] at ho
        simp [hov, hliveo] at ho
  · rw [outOf_removeNode] at hl
    rcases hb.added u l hl with hl | ⟨hmv, -⟩
    · exact h.road u l hl hm
    · rw [hm] at hmv
      cases hmv

/-! ## The contraction loop -/

/-- Entries whose priority is no longer their node's. -/
def staleCount (g : Contractor) (entries : List (Int × Nat)) : Nat :=
  (entries.filter fun e => e.1 ≠ g.priority e.2).length

/-- What the contraction loop has left to do: every entry it takes lowers it. -/
def workLeft (g : Contractor) (q : Queue (Int × Nat)) : Nat :=
  staleCount g q.items + q.items.length * q.items.length

theorem staleCount_le (g : Contractor) (entries : List (Int × Nat)) :
    staleCount g entries ≤ entries.length :=
  List.length_filter_le _ _

theorem staleCount_perm (g : Contractor) {a b : List (Int × Nat)} (h : a.Perm b) :
    staleCount g a = staleCount g b :=
  (h.filter _).length_eq

theorem staleCount_cons (g : Contractor) (e : Int × Nat) (entries : List (Int × Nat)) :
    staleCount g (e :: entries) = staleCount g entries + if e.1 ≠ g.priority e.2 then 1 else 0 := by
  unfold staleCount
  by_cases he : e.1 ≠ g.priority e.2 <;> simp [he]

theorem pop?_items {α : Type} {q q' : Queue α} {a : α} (h : q.pop? = some (a, q')) :
    q.items = a :: q'.items := by
  unfold Queue.pop? at h
  split at h
  · cases h
  · next =>
    cases h
    assumption

theorem pop?_none {α : Type} {q : Queue α} (h : q.pop? = none) : q.items = [] := by
  unfold Queue.pop? at h
  split at h
  · assumption
  · cases h

/-- Placing an entry in a queue adds it to the entries. -/
theorem place_perm {α : Type} (lt : α → α → Bool) (a : α) (l : List α) :
    (Queue.place lt a l).Perm (a :: l) := by
  induction l with
  | nil => exact List.Perm.refl _
  | cons b rest ih =>
    unfold Queue.place
    split
    · exact List.Perm.refl _
    · exact (ih.cons b).trans (List.Perm.swap a b rest)

/-! ## The loop, one round at a time -/

/-- A state of the contraction loop: the graph, the queue of `(priority, node)` entries, the ranks
given so far and the rank to give next. -/
structure Round where
  graph : Contractor
  queue : Queue (Int × Nat)
  rank : Array Nat
  next : Nat

namespace Round

/-- One round of the contraction loop, `none` once the queue is empty. The first entry is dropped
when its node is contracted, queued again when the node's priority has grown, and otherwise its
node is removed with the next rank. -/
def step (r : Round) : Option Round :=
  match r.queue.pop? with
  | none => none
  | some ((prio, v), q) =>
    if r.graph.isContracted v then some ⟨r.graph, q, r.rank, r.next⟩
    else if r.graph.priority v > prio then
      some ⟨r.graph, q.push entryLt (r.graph.priority v, v), r.rank, r.next⟩
    else some ⟨r.graph.removeNode v, q, r.rank.setIfInBounds v r.next, r.next + 1⟩

/-- The node a round removes, if it removes one. -/
def removed (r : Round) : Option Nat :=
  match r.queue.pop? with
  | none => none
  | some ((prio, v), _) =>
    if r.graph.isContracted v = false ∧ r.graph.priority v ≤ prio then some v else none

/-- What the loop has left to do from a round. -/
def work (r : Round) : Nat := workLeft r.graph r.queue

/-- Everything one round can do. -/
theorem step_cases {r r' : Round} (h : r.step = some r') :
    ∃ prio v q, r.queue.pop? = some ((prio, v), q) ∧
      ((r.graph.isContracted v = true ∧ r' = ⟨r.graph, q, r.rank, r.next⟩ ∧ r.removed = none) ∨
        (r.graph.isContracted v = false ∧ prio < r.graph.priority v ∧
          r' = ⟨r.graph, q.push entryLt (r.graph.priority v, v), r.rank, r.next⟩ ∧
          r.removed = none) ∨
        (r.graph.isContracted v = false ∧ r.graph.priority v ≤ prio ∧
          r' = ⟨r.graph.removeNode v, q, r.rank.setIfInBounds v r.next, r.next + 1⟩ ∧
          r.removed = some v)) := by
  unfold step at h
  unfold removed
  split at h
  · cases h
  next prio v q hpop =>
    refine ⟨prio, v, q, hpop, ?_⟩
    by_cases hc : r.graph.isContracted v = true
    · rw [if_pos hc] at h
      exact .inl ⟨hc, (Option.some.inj h).symm, by simp [hc]⟩
    · have hlive : r.graph.isContracted v = false := by simpa using hc
      rw [if_neg hc] at h
      by_cases hp : r.graph.priority v > prio
      · rw [if_pos hp] at h
        exact .inr (.inl ⟨hlive, hp, (Option.some.inj h).symm, by simp [hlive, Int.not_le.2 hp]⟩)
      · rw [if_neg hp] at h
        exact .inr (.inr ⟨hlive, Int.not_lt.1 hp, (Option.some.inj h).symm,
          by simp [hlive, Int.not_lt.1 hp]⟩)

/-- The loop stops exactly when the queue is empty. -/
theorem step_eq_none {r : Round} (h : r.step = none) : r.queue.items = [] := by
  unfold step at h
  split at h
  · next hpop => exact pop?_none hpop
  · split at h
    · cases h
    · split at h <;> cases h

/-- Every round lowers the work left: an entry dropped or a node removed shortens the queue, and
an entry queued again is no longer out of date. -/
theorem work_step {r r' : Round} (h : r.step = some r') : r'.work < r.work := by
  obtain ⟨prio, v, q, hpop, hcase⟩ := step_cases h
  -- One entry fewer: the square of the number of entries drops by more than the entries left.
  have hwork : r.work = staleCount r.graph q.items + (if prio ≠ r.graph.priority v then 1 else 0) +
      (q.items.length * q.items.length + q.items.length + (q.items.length + 1)) := by
    rw [work, workLeft, pop?_items hpop, staleCount_cons, List.length_cons, Nat.add_mul,
      Nat.mul_add, Nat.one_mul, Nat.mul_one]
  rw [hwork]
  rcases hcase with ⟨-, rfl, -⟩ | ⟨-, hp, rfl, -⟩ | ⟨-, -, rfl, -⟩
  · have := staleCount_le r.graph q.items
    show staleCount r.graph q.items + q.items.length * q.items.length < _
    omega
  · have hperm := place_perm entryLt (r.graph.priority v, v) q.items
    have hstale : staleCount r.graph (Queue.place entryLt (r.graph.priority v, v) q.items) =
        staleCount r.graph q.items := by
      rw [staleCount_perm _ hperm, staleCount_cons]
      simp
    have hlen : (Queue.place entryLt (r.graph.priority v, v) q.items).length = q.items.length + 1 := by
      rw [hperm.length_eq, List.length_cons]
    rw [if_pos (show prio ≠ r.graph.priority v by omega)]
    show staleCount r.graph (Queue.place entryLt (r.graph.priority v, v) q.items) +
      (Queue.place entryLt (r.graph.priority v, v) q.items).length *
        (Queue.place entryLt (r.graph.priority v, v) q.items).length < _
    rw [hstale, hlen, Nat.add_mul, Nat.mul_add, Nat.one_mul, Nat.mul_one]
    omega
  · have := staleCount_le (r.graph.removeNode v) q.items
    show staleCount (r.graph.removeNode v) q.items + q.items.length * q.items.length < _
    omega

theorem contractLoop_of_step_none {fuel : Nat} {g : Contractor} {q : Queue (Int × Nat)}
    {rank : Array Nat} {next : Nat} (h : (Round.mk g q rank next).step = none) :
    contractLoop (fuel + 1) g q rank next = (g, rank) := by
  rw [contractLoop, show q.pop? = none by rw [Queue.pop?, step_eq_none h]]

theorem contractLoop_of_step_some {fuel : Nat} {g : Contractor} {q : Queue (Int × Nat)}
    {rank : Array Nat} {next : Nat} {r' : Round} (h : (Round.mk g q rank next).step = some r') :
    contractLoop (fuel + 1) g q rank next = contractLoop fuel r'.graph r'.queue r'.rank r'.next := by
  obtain ⟨prio, v, q', hpop, hcase⟩ := step_cases h
  rw [contractLoop, show q.pop? = some ((prio, v), q') from hpop]
  rcases hcase with ⟨hc, rfl, -⟩ | ⟨hc, hp, rfl, -⟩ | ⟨hc, hp, rfl, -⟩
  · simp [hc]
  · simp [hc, hp]
  · simp [hc, Int.not_lt.2 hp]

end Round

/-- By induction on the fuel: while the fuel exceeds the work left, the loop contracts every node
that is live or queued, and keeps the state of contraction. -/
theorem Contracting.contractLoop {rank : Array Nat} {next fuel : Nat} {q : Queue (Int × Nat)}
    (h : Contracting real g rank next)
    (hq : ∀ v < g.pos.size, g.isContracted v = false → v ∈ q.items.map Prod.snd)
    (hqn : ∀ e ∈ q.items, e.2 < g.pos.size) (hfuel : workLeft g q < fuel) :
    (∀ v < g.pos.size, (contractLoop fuel g q rank next).1.isContracted v = true) ∧
      (contractLoop fuel g q rank next).1.pos = g.pos ∧
      ∃ next', Contracting real (contractLoop fuel g q rank next).1 (contractLoop fuel g q rank next).2 next' := by
  induction fuel generalizing g q rank next with
  | zero => exact absurd hfuel (Nat.not_lt_zero _)
  | succ fuel ih =>
    cases hs : (Round.mk g q rank next).step with
    | none =>
      -- An empty queue: no node is left live.
      rw [Round.contractLoop_of_step_none hs]
      refine ⟨fun v hv => ?_, rfl, next, h⟩
      cases hc : g.isContracted v with
      | true => rfl
      | false =>
        have := hq v hv hc
        rw [Round.step_eq_none hs] at this
        exact absurd this List.not_mem_nil
    | some r' =>
      rw [Round.contractLoop_of_step_some hs]
      have hfuel' : workLeft r'.graph r'.queue < fuel :=
        Nat.lt_of_lt_of_le (Round.work_step hs) (Nat.lt_succ_iff.1 hfuel)
      obtain ⟨prio, v, q', hpop, hcase⟩ := Round.step_cases hs
      have hitems := pop?_items hpop
      have hv : v < g.pos.size := hqn (prio, v) (by rw [hitems]; exact List.mem_cons_self)
      -- Every live node other than `v` has an entry after the one taken.
      have hrest : ∀ w < g.pos.size, g.isContracted w = false → w ≠ v → w ∈ q'.items.map Prod.snd := by
        intro w hw hc hwv
        have := hq w hw hc
        rw [hitems, List.map_cons, List.mem_cons] at this
        exact this.resolve_left hwv
      have hqn' : ∀ e ∈ q'.items, e.2 < g.pos.size :=
        fun e he => hqn e (by rw [hitems]; exact List.mem_cons_of_mem _ he)
      rcases hcase with ⟨hc, rfl, -⟩ | ⟨hc, -, rfl, -⟩ | ⟨hc, -, rfl, -⟩
      · -- A contracted node's entry is dropped.
        refine ih h (fun w hw hcw => hrest w hw hcw fun hwv => ?_) hqn' hfuel'
        rw [hwv, hc] at hcw
        cases hcw
      · -- A node whose priority grew goes back with the new priority.
        have hperm := place_perm entryLt (g.priority v, v) q'.items
        refine ih h (fun w hw hcw => ?_) (fun e he => ?_) hfuel'
        · show w ∈ (Queue.place entryLt (g.priority v, v) q'.items).map Prod.snd
          rw [(hperm.map Prod.snd).mem_iff, List.map_cons, List.mem_cons]
          by_cases hwv : w = v
          · exact .inl hwv
          · exact .inr (hrest w hw hcw hwv)
        · rcases List.mem_cons.1 (hperm.mem_iff.1 he) with rfl | he
          · exact hv
          · exact hqn' e he
      · -- Otherwise the node is contracted with the next rank.
        have hpos : (g.removeNode v).pos = g.pos := removeNode_pos v
        have hcon := isContracted_removeNode h.wf.contracted_size hv
        have hq' : ∀ w < (g.removeNode v).pos.size, (g.removeNode v).isContracted w = false →
            w ∈ q'.items.map Prod.snd := by
          intro w hw hcw
          rw [hcon] at hcw
          simp only [Bool.or_eq_false_iff, decide_eq_false_iff_not] at hcw
          exact hrest w (by rw [← hpos]; exact hw) hcw.2 hcw.1
        obtain ⟨hall, hpos', hnext⟩ :=
          ih (h.removeNode hv hc) hq' (fun e he => hpos ▸ hqn' e he) hfuel'
        exact ⟨fun w hw => hall w (Nat.lt_of_lt_of_eq hw (by rw [hpos])), hpos'.trans hpos, hnext⟩

/-- The entries first queued: every node with its priority. -/
theorem queue_perm (g : Contractor) (l : List Nat) (q : Queue (Int × Nat)) :
    (l.foldl (fun q v => q.push entryLt (g.priority v, v)) q).items.Perm
      (l.map (fun v => (g.priority v, v)) ++ q.items) := by
  induction l generalizing q with
  | nil => exact List.Perm.refl _
  | cons v l ih =>
    rw [List.foldl_cons, List.map_cons]
    refine (ih _).trans ?_
    exact ((List.Perm.refl _).append (place_perm entryLt _ _)).trans List.perm_middle

/-- Contraction contracts every node, and leaves the state of contraction: distinct ranks below the
number of nodes, and every shortcut resolvable. -/
theorem Original.contract (h : Original real g) :
    (∀ v < g.pos.size, g.contract.1.isContracted v = true) ∧ g.contract.1.pos = g.pos ∧
      ∃ next, Contracting real g.contract.1 g.contract.2 next := by
  have hperm := queue_perm g (List.range g.pos.size) Queue.empty
  rw [show (Queue.empty : Queue (Int × Nat)).items = [] from rfl, List.append_nil] at hperm
  have hstale : staleCount g ((List.range g.pos.size).foldl
      (fun q v => q.push entryLt (g.priority v, v)) Queue.empty).items = 0 := by
    rw [staleCount_perm g hperm, staleCount, List.filter_eq_nil_iff.2 (by simp)]
    rfl
  unfold Contractor.contract
  refine h.contracting.contractLoop (fun v hv _ => ?_) (fun e he => ?_) ?_
  · rw [(hperm.map Prod.snd).mem_iff, List.map_map]
    simpa using hv
  · obtain ⟨x, hx, rfl⟩ := List.mem_map.1 (hperm.mem_iff.1 he)
    simpa using hx
  · unfold workLeft
    rw [hstale, hperm.length_eq, List.length_map, List.length_range]
    have : g.pos.size * g.pos.size < (g.pos.size + 1) * (g.pos.size + 1) :=
      Nat.mul_self_lt_mul_self (by omega)
    omega

end Contractor

end Wayfinder
