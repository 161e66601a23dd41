import Wayfinder.Proofs.Index.Search

/-!
# Where a query's path begins and ends

A monitor that never stops a query only counts its steps, so a query answers the same under every
such monitor: `pathBetween`, its answer under the default monitor (`queryBetween_quiet`). On an
index that `build` returns that answer is never an error.

The path a query answers leads from one of its start nodes to one of its finish nodes along road
links (`pathBetween_walk`). Each side of the search keeps `Side.Sound`: a node it reached through
a link was reached from the link's owner, another node it had reached before, and a node it
reached without a link is a seed. Walking back from the meeting node follows links to owners of
strictly lower rank (`Ranked`): upward links climb in rank, and a downward link joins two distinct
nodes of distinct ranks. So both walks end at seeds within the fuel the query gives them, and the
links they read form a chain from a start seed through the meeting node to a finish seed, which
unpacking turns into a walk of road links between the same ends.
-/

namespace Wayfinder

/-- A monitor that never stops a search never asks to stop it, however many steps it counted. -/
theorem Monitor.stopNow_eq_none {m : Monitor} (h : m.interrupt = none) : m.stopNow? = none := by
  unfold Monitor.stopNow?
  split
  · exact h
  · rfl

@[simp] theorem Monitor.interrupt_tick (m : Monitor) : m.tick.interrupt = m.interrupt := rfl

@[simp] theorem getD_replicate_none (n v : Nat) :
    (Array.replicate n (none : Option (Nat × Option Nat))).getD v none = none := by
  rw [Array.getD_eq_getD_getElem?, Array.getElem?_replicate]
  split <;> rfl

/-- `l` leads from `a` to `b`: each of its links starts where the one before it ends. -/
inductive Leads {α : Type} : Nat → List (Nat × Nat × α) → Nat → Prop
  | nil (a : Nat) : Leads a [] a
  | cons {a b c : Nat} (z : α) {l : List (Nat × Nat × α)} : Leads b l c → Leads a ((a, b, z) :: l) c

theorem Leads.append {α : Type} {a b c : Nat} {l l' : List (Nat × Nat × α)} (h : Leads a l b)
    (h' : Leads b l' c) : Leads a (l ++ l') c := by
  induction h with
  | nil => exact h'
  | cons z _ ih => exact .cons z (ih h')

theorem Leads.map {α β : Type} (g : α → β) {a b : Nat} {l : List (Nat × Nat × α)}
    (h : Leads a l b) : Leads a (l.map fun e => (e.1, e.2.1, g e.2.2)) b := by
  induction h with
  | nil a => exact .nil a
  | cons z _ ih => exact .cons (g z) ih

namespace Side

/-- What one side of a query keeps while it runs, on `n` nodes and seeded from `seeds`: the links
it recorded are links of their owners; a node reached through a link was reached from the link's
owner, another node reached before it; a node reached without a link is a seed; and every queued
node was reached at no more than its queued cost. -/
structure Sound (c : Csr) (n : Nat) (seeds : List (Nat × Nat)) (s : Side) : Prop where
  size : s.reached.size = n
  recorded : s.Recorded c
  linked : ∀ v d i, s.reached.getD v none = some (d, some i) →
    c.owner i ≠ v ∧ (s.reached.getD (c.owner i) none).isSome
  rooted : ∀ v d, s.reached.getD v none = some (d, none) → v ∈ seeds.map Prod.fst
  queued : ∀ e ∈ s.queue.items, e.2 < n →
    ∃ d via, s.reached.getD e.2 none = some (d, via) ∧ d ≤ e.1

variable {c : Csr} {n : Nat} {seeds : List (Nat × Nat)}

/-- A reached node lies within the side's table. -/
theorem lt_size_of_isSome {s : Side} {v : Nat} (h : (s.reached.getD v none).isSome) :
    v < s.reached.size := by
  rcases Nat.lt_or_ge v s.reached.size with hv | hv
  · exact hv
  · rw [Array.getD_eq_getD_getElem?, Array.getElem?_eq_none hv] at h
    cases h

/-- An offer changes nothing, or records `v` at `cost` through `via` and queues it when `v` was
not reached at `cost` or less. -/
theorem offer_cases (s : Side) (v cost : Nat) (via : Option Nat) :
    s.offer v cost via = s ∨
      ((∀ d, s.cost? v = some d → cost < d) ∧
        s.offer v cost via =
          ⟨s.reached.setIfInBounds v (some (cost, via)), s.queue.push Queue.pairLt (cost, v)⟩) := by
  unfold offer
  split
  next d hd =>
    split
    next hlt =>
      refine .inr ⟨fun d' hd' => ?_, rfl⟩
      rw [hd] at hd'
      cases hd'
      exact hlt
    next => exact .inl rfl
  next hd =>
    refine .inr ⟨fun d' hd' => ?_, rfl⟩
    rw [hd] at hd'
    cases hd'

/-- An offer at no less than the cost a node was reached at is refused. -/
theorem offer_of_le {s : Side} {v cost d : Nat} {via : Option Nat} (hd : s.cost? v = some d)
    (hle : d ≤ cost) : s.offer v cost via = s := by
  unfold offer
  rw [hd]
  exact if_neg (Nat.not_lt.2 hle)

theorem getD_offer_of_ne (s : Side) {v w cost : Nat} {via : Option Nat} (hne : v ≠ w) :
    (s.offer v cost via).reached.getD w none = s.reached.getD w none := by
  rcases offer_cases s v cost via with hs | ⟨-, hs⟩
  · rw [hs]
  · rw [hs, getD_setIfInBounds, if_neg fun h => hne h.1]

/-- A node once reached stays reached. -/
theorem isSome_offer {s : Side} {v w cost : Nat} {via : Option Nat}
    (hw : (s.reached.getD w none).isSome) : ((s.offer v cost via).reached.getD w none).isSome := by
  rcases offer_cases s v cost via with hs | ⟨-, hs⟩
  · rw [hs]
    exact hw
  · rw [hs, getD_setIfInBounds]
    split
    · rfl
    · exact hw

theorem Sound.offer {s : Side} (h : s.Sound c n seeds) {v cost : Nat} {via : Option Nat}
    (hvia : ∀ i, via = some i → i ∈ c.linksOf (c.owner i) ∧ c.head.getD i 0 = v ∧
      c.owner i ≠ v ∧ (s.reached.getD (c.owner i) none).isSome)
    (hseed : via = none → v ∈ seeds.map Prod.fst) : (s.offer v cost via).Sound c n seeds := by
  rcases offer_cases s v cost via with hs | ⟨hlt, hs⟩
  · rw [hs]
    exact h
  rw [hs]
  have hget : ∀ w, (s.reached.setIfInBounds v (some (cost, via))).getD w none =
      if v = w ∧ v < n then some (cost, via) else s.reached.getD w none := by
    intro w
    rw [getD_setIfInBounds, h.size]
  have hkeep : ∀ w, (s.reached.getD w none).isSome →
      ((s.reached.setIfInBounds v (some (cost, via))).getD w none).isSome := by
    intro w hw
    rw [getD_setIfInBounds]
    split
    · rfl
    · exact hw
  refine ⟨by rw [Array.size_setIfInBounds, h.size],
    recorded_write h.recorded (fun i hi => ⟨(hvia i hi).1, (hvia i hi).2.1⟩) _, ?_, ?_, ?_⟩
  · intro w d i hw
    rw [hget] at hw
    split at hw
    next hv =>
      obtain ⟨rfl, -⟩ := hv
      cases hw
      obtain ⟨-, -, hne, hsome⟩ := hvia i rfl
      exact ⟨hne, hkeep _ hsome⟩
    next =>
      obtain ⟨hne, hsome⟩ := h.linked w d i hw
      exact ⟨hne, hkeep _ hsome⟩
  · intro w d hw
    rw [hget] at hw
    split at hw
    next hv =>
      obtain ⟨rfl, -⟩ := hv
      cases hw
      exact hseed rfl
    next => exact h.rooted w d hw
  · intro e he hen
    rw [hget]
    rcases List.mem_cons.1 ((Contractor.place_perm _ _ _).mem_iff.1 he) with rfl | he
    · exact ⟨cost, via, if_pos ⟨rfl, hen⟩, Nat.le_refl _⟩
    · obtain ⟨d, via', hd, hle⟩ := h.queued e he hen
      split
      next hv =>
        obtain ⟨rfl, -⟩ := hv
        -- `v` was reached at `d` already, so the offer was cheaper than that.
        have hcost : cost < d := hlt d (by simp [cost?, hd])
        exact ⟨cost, via, rfl, by omega⟩
      next => exact ⟨d, via', hd, hle⟩

theorem sound_seeded (c : Csr) (n : Nat) (seeds : List (Nat × Nat)) :
    (seeded n seeds).Sound c n seeds := by
  refine foldl_invariant (Sound c n seeds) ?_ fun s ⟨v, d⟩ hv hs =>
    hs.offer (fun i hi => by cases hi) fun _ => List.mem_map_of_mem hv
  refine ⟨Array.size_replicate, fun v d i hv => ?_, ?_, ?_, fun e he => by cases he⟩
  · rw [getD_replicate_none] at hv
    cases hv
  · intro v d i hv
    rw [getD_replicate_none] at hv
    cases hv
  · intro v d hv
    rw [getD_replicate_none] at hv
    cases hv

/-- Taking the cheapest entry keeps the side sound, and the entry's node was reached at no more
than the entry's cost. -/
theorem Sound.pop {s : Side} (h : s.Sound c n seeds) {e : Nat × Nat} {q : Queue (Nat × Nat)}
    (hq : s.queue.pop? = some (e, q)) :
    ({ s with queue := q } : Side).Sound c n seeds ∧
      (e.2 < n → ∃ d via, s.reached.getD e.2 none = some (d, via) ∧ d ≤ e.1) := by
  have hitems := Contractor.pop?_items hq
  refine ⟨⟨h.size, h.recorded, h.linked, h.rooted, fun e' he' => h.queued e' ?_⟩,
    h.queued e (by rw [hitems]; exact List.mem_cons_self)⟩
  rw [hitems]
  exact List.mem_cons_of_mem _ he'

end Side

namespace RoutingIndex

section Settle

variable {c : Csr} {n : Nat} {seeds : List (Nat × Nat)}

/-- Settling keeps every reached node reached. -/
theorem isSome_settle (own other : Side) (best : Nat) (meet : Option Nat) (cost node : Nat)
    {w : Nat} (hw : (own.reached.getD w none).isSome) :
    ((settle c own other best meet cost node).1.reached.getD w none).isSome := by
  unfold settle
  split
  · exact hw
  · exact foldl_invariant (fun s : Side => (s.reached.getD w none).isSome) hw
      fun _ _ _ hs => Side.isSome_offer hs

/-- Settling records the settled node as the meeting, if it records one: a node that the other
side reached. -/
theorem meet_settle (c : Csr) (own other : Side) (best : Nat) (meet : Option Nat)
    (cost node : Nat) :
    (settle c own other best meet cost node).2.2 = meet ∨
      ((settle c own other best meet cost node).2.2 = some node ∧ (other.cost? node).isSome) := by
  unfold settle
  split
  · exact .inl rfl
  · simp only
    split
    next d hd =>
      split
      · exact .inr ⟨rfl, by rw [hd]; rfl⟩
      · exact .inl rfl
    next => exact .inl rfl

/-- Settling the entry `(cost, node)` keeps a side sound, for a node reached at no more than
`cost`: the relaxed links leave `node`, and a link back into `node` itself is refused. -/
theorem Side.Sound.settle (hc : c.Owned) (hpast : ∀ v, n ≤ v → c.linksOf v = []) {own : Side}
    (h : own.Sound c n seeds) (other : Side) (best : Nat) (meet : Option Nat) {cost node : Nat}
    (hnode : node < n → ∃ d via, own.reached.getD node none = some (d, via) ∧ d ≤ cost) :
    (settle c own other best meet cost node).1.Sound c n seeds := by
  unfold RoutingIndex.settle
  split
  · exact h
  simp only
  -- Along the relaxation the side stays sound and `node` stays reached at no more than `cost`.
  refine (foldl_invariant (fun s : Side => s.Sound c n seeds ∧
      (node < n → ∃ d via, s.reached.getD node none = some (d, via) ∧ d ≤ cost)) ⟨h, hnode⟩
      fun s i hi ⟨hs, hn⟩ => ?_).1
  have hlt : node < n := by
    rcases Nat.lt_or_ge node n with hlt | hge
    · exact hlt
    · rw [hpast node hge] at hi
      cases hi
  obtain ⟨d, via, hd, hle⟩ := hn hlt
  have howner : c.owner i = node := hc node i hi
  by_cases hv : c.head.getD i 0 = node
  · have hrefused : s.offer (c.head.getD i 0) (cost + c.cost.getD i 0) (some i) = s := by
      refine Side.offer_of_le (d := d) ?_ (by omega)
      simp [Side.cost?, hv, hd]
    rw [hrefused]
    exact ⟨hs, hn⟩
  · refine ⟨hs.offer (fun j hj => ?_) (fun h => by cases h), fun _ => ?_⟩
    · cases hj
      rw [howner, hd]
      exact ⟨hi, rfl, Ne.symm hv, rfl⟩
    · rw [Side.getD_offer_of_ne s hv]
      exact ⟨d, via, hd, hle⟩

/-- One step of a query on one side: settling the entry taken from `own`'s queue keeps `own`
sound, and the meeting node, once there is one, is reached by both sides. -/
theorem settle_step (hc : c.Owned) (hpast : ∀ v, n ≤ v → c.linksOf v = []) {own other : Side}
    (hown : own.Sound c n seeds) (hother : other.reached.size = n) {cost node : Nat}
    {q : Queue (Nat × Nat)} (hq : own.queue.pop? = some ((cost, node), q)) (best : Nat)
    {meet : Option Nat}
    (hmeet : ∀ v, meet = some v →
      (own.reached.getD v none).isSome ∧ (other.reached.getD v none).isSome) :
    (settle c { own with queue := q } other best meet cost node).1.Sound c n seeds ∧
      ∀ v, (settle c { own with queue := q } other best meet cost node).2.2 = some v →
        ((settle c { own with queue := q } other best meet cost node).1.reached.getD v none).isSome ∧
          (other.reached.getD v none).isSome := by
  obtain ⟨hpop, hnode⟩ := hown.pop hq
  refine ⟨Side.Sound.settle hc hpast hpop other best meet hnode, fun v hv => ?_⟩
  rcases meet_settle c { own with queue := q } other best meet cost node with hm | ⟨hm, hsome⟩
  · rw [hm] at hv
    obtain ⟨ho, ht⟩ := hmeet v hv
    exact ⟨isSome_settle _ _ _ _ _ _ ho, ht⟩
  · rw [hm] at hv
    cases hv
    have hother' : (other.reached.getD node none).isSome := by
      simpa [Side.cost?] using hsome
    have hlt : node < n := hother ▸ Side.lt_size_of_isSome hother'
    obtain ⟨d, via, hd, -⟩ := hnode hlt
    refine ⟨isSome_settle _ _ _ _ _ _ ?_, hother'⟩
    show (own.reached.getD node none).isSome
    rw [hd]
    rfl

end Settle

/-- What reading a query's path back needs of an index besides unpacking: its links are owned by
the nodes whose ranges hold them, nodes past the last have none, an upward link leads from its
owner to a node of higher rank, so does a downward link to another node, and ranks stay within
the number of nodes. -/
structure Ranked (x : RoutingIndex) : Prop where
  upOwned : x.up.Owned
  downOwned : x.down.Owned
  upPast : ∀ v, x.nodeCount ≤ v → x.up.linksOf v = []
  downPast : ∀ v, x.nodeCount ≤ v → x.down.linksOf v = []
  climb : ∀ a i, i ∈ x.up.linksOf a → x.rank.getD a 0 < x.rank.getD (x.up.head.getD i 0) 0
  descend : ∀ b i, i ∈ x.down.linksOf b → b ≠ x.down.head.getD i 0 →
    x.rank.getD b 0 < x.rank.getD (x.down.head.getD i 0) 0
  bounded : ∀ v, x.rank.getD v 0 ≤ x.nodeCount

/-- An index laid out from a graph whose nodes are all contracted is ranked: its upward half
holds the links that climb in rank, and its downward half the others, stored with their other end,
which ranks no higher and is another node of another rank. -/
theorem ranked_of_contracted {real : Nat → Prop} {x : RoutingIndex} {g : Contractor} {next : Nat}
    (hc : g.Contracting real x.rank next) (hall : ∀ v < g.pos.size, g.isContracted v = true)
    (hpos : x.nodePos = g.pos) (hup : x.up = Csr.ofLists (splitLists g x.rank).1)
    (hdown : x.down = Csr.ofLists (splitLists g x.rank).2) : x.Ranked := by
  have hn : x.nodeCount = g.pos.size := by rw [nodeCount, hpos]
  refine ⟨hup ▸ Csr.owned_ofLists _, hdown ▸ Csr.owned_ofLists _, fun v hv => ?_, fun v hv => ?_,
    fun a i hi => ?_, fun b i hi hne => ?_, fun v => ?_⟩
  · refine List.eq_nil_iff_forall_not_mem.2 fun i hi => ?_
    rw [hup] at hi
    have hv' := hc.wf.lt_of_mem_outOf ((mem_splitLists_up hc.wf).1 (Csr.linkAt_mem_ofLists hi)).1
    omega
  · refine List.eq_nil_iff_forall_not_mem.2 fun i hi => ?_
    rw [hdown] at hi
    have hv' : v < g.pos.size :=
      hc.wf.bounded _ _ ((mem_splitLists_down hc.wf).1 (Csr.linkAt_mem_ofLists hi)).1
    omega
  · rw [hup] at hi ⊢
    exact ((mem_splitLists_up hc.wf).1 (Csr.linkAt_mem_ofLists hi)).2
  · rw [hdown] at hi hne ⊢
    obtain ⟨hl, hle⟩ := (mem_splitLists_down hc.wf).1 (Csr.linkAt_mem_ofLists hi)
    -- Both ends are contracted nodes, and distinct contracted nodes have distinct ranks.
    have hb := hall b (hc.wf.bounded _ _ hl)
    have ho := hall _ (hc.wf.lt_of_mem_outOf hl)
    have hrank : x.rank.getD b 0 ≠ x.rank.getD ((Csr.ofLists _).linkAt i).other 0 :=
      fun h => hne (hc.distinct _ _ hb ho h)
    exact Nat.lt_of_le_of_ne (Nat.not_lt.1 hle) hrank
  · rcases Nat.lt_or_ge v g.pos.size with hv | hv
    · have := hc.ranked v (hall v hv)
      have := hc.next_le
      omega
    · rw [Array.getD_eq_getD_getElem?, Array.getElem?_eq_none (by rw [hc.rank_size]; exact hv)]
      exact Nat.zero_le _

/-- Every index that `build` returns is ranked. -/
theorem ranked_of_build {store : Store} {region readScale : Nat} {crossRegion : Bool}
    {x : RoutingIndex} (h : build store region crossRegion readScale = .ok x) : x.Ranked := by
  obtain ⟨hpos, hrank, hup, hdown⟩ := build_eq h
  obtain ⟨hall, hpos', next, hc⟩ := (original_regionGraph store region readScale).contract
  rw [← hrank] at hup hdown hc
  refine ranked_of_contracted hc (fun v hv => hall v ?_) hpos hup hdown
  rw [← hpos']
  exact hv

/-- What a query keeps while it runs from `sources` to `targets`: both sides are sound, and the
meeting node, once there is one, was reached by both. -/
structure Sound (x : RoutingIndex) (sources targets : List (Nat × Nat)) (st : Meeting) : Prop where
  fwd : st.fwd.Sound x.up x.nodeCount sources
  bwd : st.bwd.Sound x.down x.nodeCount targets
  meet : ∀ v, st.meet = some v →
    (st.fwd.reached.getD v none).isSome ∧ (st.bwd.reached.getD v none).isSome

section Run

variable {x : RoutingIndex} {sources targets : List (Nat × Nat)}

/-- By induction on the fuel: each step settles an entry on one side, which `settle_step` shows
keeps the search sound. -/
theorem searchLoop_sound (hr : x.Ranked) (fuel : Nat) :
    ∀ st m, x.Sound sources targets st → ∀ st', (x.searchLoop fuel st m).1 = .ok st' →
      x.Sound sources targets st' := by
  induction fuel with
  | zero =>
    intro st m hs st' h
    cases h
    exact hs
  | succ fuel ih =>
    intro st m hs st' h
    rw [searchLoop] at h
    simp only at h
    split at h
    · cases h
      exact hs
    split at h
    · split at h
      · cases h
        exact hs
      next cost node q hq =>
        split at h
        · cases h
        · obtain ⟨hf, hmeet⟩ :=
            settle_step hr.upOwned hr.upPast hs.fwd hs.bwd.size hq st.best hs.meet
          refine ih _ _ ?_ st' h
          exact ⟨hf, hs.bwd, hmeet⟩
    · split at h
      · cases h
        exact hs
      next cost node q hq =>
        split at h
        · cases h
        · obtain ⟨hb, hmeet⟩ := settle_step hr.downOwned hr.downPast hs.bwd hs.fwd.size hq st.best
            fun v hv => (hs.meet v hv).symm
          refine ih _ _ ?_ st' h
          exact ⟨hs.fwd, hb, fun v hv => (hmeet v hv).symm⟩

/-- A query starts sound: each side is its seeds, and there is no meeting yet. -/
theorem sound_start (x : RoutingIndex) (sources targets : List (Nat × Nat)) :
    x.Sound sources targets
      ⟨Side.seeded x.nodeCount sources, Side.seeded x.nodeCount targets, unreached, none⟩ :=
  ⟨Side.sound_seeded _ _ _, Side.sound_seeded _ _ _, fun _ h => by cases h⟩

/-- By induction on the fuel, which exceeds the rank of the node the walk is at: walking back on a
sound start side from a reached node ends at a seed, with links that lead on to where the walk
began. Each link read goes back to its owner, of lower rank. -/
theorem walkUp_seed (hr : x.Ranked) {side : Side} {seeds : List (Nat × Nat)}
    (hs : side.Sound x.up x.nodeCount seeds) {meet : Nat} (fuel : Nat) :
    ∀ v acc, (side.reached.getD v none).isSome → x.rank.getD v 0 < fuel → Leads v acc meet →
      (x.walkUp side fuel v acc).1 ∈ seeds.map Prod.fst ∧
        Leads (x.walkUp side fuel v acc).1 (x.walkUp side fuel v acc).2 meet := by
  induction fuel with
  | zero => exact fun v acc _ hrank => absurd hrank (Nat.not_lt_zero _)
  | succ fuel ih =>
    intro v acc hv hrank hacc
    rw [walkUp]
    split
    next d i hi =>
      obtain ⟨hmem, hhead⟩ := hs.recorded v d i hi
      obtain ⟨hne, hsome⟩ := hs.linked v d i hi
      have hclimb := hr.climb _ i hmem
      rw [hhead] at hclimb
      exact ih _ _ hsome (by omega) (.cons i hacc)
    next hnot =>
      obtain ⟨⟨d, via⟩, hd⟩ := Option.isSome_iff_exists.1 hv
      cases via with
      | none => exact ⟨hs.rooted v d hd, hacc⟩
      | some i => exact absurd hd (hnot d i)

/-- By induction on the fuel, which exceeds the rank of the node the walk is at: walking on from a
reached node of a sound finish side leads to a seed. Each link read goes on to its owner, another
node, of lower rank. -/
theorem walkDown_seed (hr : x.Ranked) {side : Side} {seeds : List (Nat × Nat)}
    (hs : side.Sound x.down x.nodeCount seeds) (fuel : Nat) :
    ∀ v, (side.reached.getD v none).isSome → x.rank.getD v 0 < fuel →
      ∃ e ∈ seeds.map Prod.fst, Leads v (x.walkDown side fuel v) e := by
  induction fuel with
  | zero => exact fun v _ hrank => absurd hrank (Nat.not_lt_zero _)
  | succ fuel ih =>
    intro v hv hrank
    rw [walkDown]
    split
    next d i hi =>
      obtain ⟨hmem, hhead⟩ := hs.recorded v d i hi
      obtain ⟨hne, hsome⟩ := hs.linked v d i hi
      have hdesc := hr.descend _ i hmem (by rw [hhead]; exact hne)
      rw [hhead] at hdesc
      obtain ⟨e, he, hlead⟩ := ih _ hsome (by omega)
      exact ⟨e, he, .cons i hlead⟩
    next hnot =>
      obtain ⟨⟨d, via⟩, hd⟩ := Option.isSome_iff_exists.1 hv
      cases via with
      | none => exact ⟨v, hs.rooted v d hd, .nil v⟩
      | some i => exact absurd hd (hnot d i)

/-- The links read back, each unpacked into a walk of road links between its ends, join into one
walk from where the first begins to where the last ends. -/
theorem roadWalk_of_leads {f : Nat × Nat × Option Nat × Nat → Option (List (Nat × Nat × Nat))}
    {a b : Nat} {l : List (Nat × Nat × Option Nat × Nat)} (h : Leads a l b) :
    ∀ {legs}, (∀ e ∈ l, ∀ p, f e = some p → ∃ c, x.RoadWalk e.1 e.2.1 p c) →
      l.mapM f = some legs → ∃ c, x.RoadWalk a b legs.flatten c := by
  induction h with
  | nil a =>
    intro legs _ hl
    cases hl
    exact ⟨0, .nil a⟩
  | @cons a v b z l _ ih =>
    intro legs hf hl
    rcases hp : f (a, v, z) with _ | p
    · simp [List.mapM_cons, hp] at hl
    rcases hq : l.mapM f with _ | ps
    · simp [List.mapM_cons, hp, hq] at hl
    simp only [List.mapM_cons, hp, hq, Option.bind_eq_bind, Option.bind_some, Option.pure_def,
      Option.some.injEq] at hl
    subst hl
    obtain ⟨c₁, hw₁⟩ := hf _ List.mem_cons_self p hp
    obtain ⟨c₂, hw₂⟩ := ih (fun e he => hf e (List.mem_cons_of_mem _ he)) hq
    exact ⟨c₁ + c₂, by rw [List.flatten_cons]; exact hw₁.append hw₂⟩

end Run

section Quiet

variable {x : RoutingIndex}

/-- By induction on the fuel: a monitor that never stops the search is only ticked, so the search
goes the same way under any two such monitors. -/
theorem searchLoop_quiet (x : RoutingIndex) (fuel : Nat) :
    ∀ st {m m' : Monitor}, m.interrupt = none → m'.interrupt = none →
      (x.searchLoop fuel st m).1 = (x.searchLoop fuel st m').1 := by
  induction fuel with
  | zero => intros; rfl
  | succ fuel ih =>
    intro st m m' hm hm'
    have hstop : m.tick.stopNow? = none := Monitor.stopNow_eq_none (by simpa using hm)
    have hstop' : m'.tick.stopNow? = none := Monitor.stopNow_eq_none (by simpa using hm')
    rw [searchLoop, searchLoop]
    simp only [hstop, hstop']
    split
    · rfl
    split
    · split
      · rfl
      · exact ih _ (by simpa using hm) (by simpa using hm')
    · split
      · rfl
      · exact ih _ (by simpa using hm) (by simpa using hm')

/-- A query answers the same under any two monitors that never stop it. -/
theorem queryBetween_quiet_eq (x : RoutingIndex) (sources targets : List (Nat × Nat))
    {m m' : Monitor} (hm : m.interrupt = none) (hm' : m'.interrupt = none) :
    (x.queryBetween sources targets m).1 = (x.queryBetween sources targets m').1 := by
  have h := x.searchLoop_quiet (2 * (sources.length + targets.length + x.up.size + x.down.size +
    x.nodeCount) + 2) ⟨Side.seeded x.nodeCount sources, Side.seeded x.nodeCount targets, unreached,
    none⟩ hm hm'
  unfold queryBetween
  simp only
  generalize x.searchLoop _ _ m = r at h ⊢
  generalize x.searchLoop _ _ m' = r' at h ⊢
  obtain ⟨e, mm⟩ := r
  obtain ⟨e', mm'⟩ := r'
  cases h
  cases e with
  | error o => rfl
  | ok st =>
    simp only
    split
    · rfl
    · split <;> rfl

end Quiet

/-- The path a query answers under a monitor that never stops it: `none` when no finish node is
reached from a start node. -/
def pathBetween (x : RoutingIndex) (sources targets : List (Nat × Nat)) : Option IndexPath :=
  match (x.queryBetween sources targets {}).1 with
  | .ok p => p
  | .error _ => none

section Answer

variable {real : Nat → Prop} {x : RoutingIndex}

/-- On a ranked resolvable index, a query under a monitor that never stops it answers
`pathBetween`: the default monitor never stops a query, which fails only when its monitor asks. -/
theorem queryBetween_quiet (hr : x.Ranked) (hx : x.Resolvable real)
    (sources targets : List (Nat × Nat)) {m : Monitor} (hm : m.interrupt = none) :
    (x.queryBetween sources targets m).1 = .ok (x.pathBetween sources targets) := by
  rw [queryBetween_quiet_eq x sources targets hm (rfl : ({} : Monitor).interrupt = none)]
  unfold pathBetween
  split
  next p hp => exact hp
  next o ho => cases queryBetween_error hx hr.upOwned hr.downOwned sources targets {} ho

/-- The path a query answers leads from one of its start nodes to one of its finish nodes: its
nodes are the ends of a walk of road links from the one to the other, and its features the
features of those links. -/
theorem pathBetween_walk (hr : x.Ranked) (hx : x.Resolvable real)
    {sources targets : List (Nat × Nat)} {p : IndexPath} (hp : x.pathBetween sources targets = some p) :
    ∃ a ∈ sources.map Prod.fst, ∃ b ∈ targets.map Prod.fst, ∃ legs c, x.RoadWalk a b legs c ∧
      p.nodes = a :: legs.map (·.2.1) ∧ p.features = legs.map (·.2.2) := by
  unfold pathBetween at hp
  split at hp
  next q hq =>
    subst hp
    unfold queryBetween at hq
    simp only at hq
    split at hq
    · cases hq
    next st m' hrun =>
      have hs := searchLoop_sound hr _ _ {} (sound_start x sources targets) st (by rw [hrun])
      split at hq
      · cases hq
      next meet hmeet =>
        obtain ⟨hf, hb⟩ := hs.meet meet hmeet
        have hrank : x.rank.getD meet 0 < x.nodeCount + 1 := Nat.lt_succ_of_le (hr.bounded meet)
        obtain ⟨hroot, hup⟩ := walkUp_seed hr hs.fwd _ meet [] hf hrank (.nil meet)
        obtain ⟨b, hb', hdown⟩ := walkDown_seed hr hs.bwd _ meet hb hrank
        split at hq
        · cases hq
        next legs hlegs =>
          cases hq
          -- The links read back lead from the start seed through the meeting node to the finish
          -- seed, and each unpacks into a walk of road links between its ends.
          have hlinks := (hup.map fun i => (x.up.mid.getD i none, x.up.feature.getD i 0)).append
            (hdown.map fun i => (x.down.mid.getD i none, x.down.feature.getD i 0))
          refine (roadWalk_of_leads hlinks (fun e he p hp => ?_) hlegs).elim fun c hw =>
            ⟨_, hroot, b, hb', legs.flatten, c, hw, rfl, rfl⟩
          rcases List.mem_append.1 he with he | he
          · obtain ⟨l, hl, rfl⟩ := List.mem_map.1 he
            obtain ⟨p', c, hp', hw⟩ := unpack_of_up hx
              (walkUp_links hs.fwd.recorded _ meet [] (fun _ h => absurd h List.not_mem_nil) l hl)
            cases Option.some.inj (hp.symm.trans hp')
            exact ⟨c, hw⟩
          · obtain ⟨l, hl, rfl⟩ := List.mem_map.1 he
            obtain ⟨p', c, hp', hw⟩ :=
              unpack_of_down hx (walkDown_links hs.bwd.recorded _ meet l hl)
            cases Option.some.inj (hp.symm.trans hp')
            exact ⟨c, hw⟩
  next => cases hp

end Answer

end RoutingIndex

end Wayfinder
