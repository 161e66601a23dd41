import Wayfinder.Proofs.Index.Unpack

/-!
# Reading a query's path back

A side of a search records, for each node it reached through a link, the index of that link. The
search only ever records a link of the node it settles, towards the node the link leads to
(`Side.Recorded`), so walking back from the meeting node reads links that the index keeps: upward
links from their owners on the start side, downward links into their owners on the finish side
(`walkUp_links`, `walkDown_links`). Every link on a query's path therefore unpacks, and a query
fails only with the outcome its monitor asks for (`queryBetween_error`): never with an internal
error (`queryBetween_ne_internalError`).
-/

namespace Wayfinder

/-- Each link of the compressed lists is owned by the node whose range holds it. -/
def Csr.Owned (c : Csr) : Prop := ∀ n i, i ∈ c.linksOf n → c.owner i = n

theorem Csr.owned_ofLists (lists : Array (Array Link)) : (Csr.ofLists lists).Owned :=
  fun _ _ hi => Csr.owner_ofLists hi

/-- Running `f` over a list gives a result when `f` gives one for every member. -/
theorem mapM_option_isSome {α β : Type} {f : α → Option β} {l : List α}
    (h : ∀ a ∈ l, (f a).isSome) : (l.mapM f).isSome := by
  induction l with
  | nil => rfl
  | cons a l ih =>
    obtain ⟨b, hb⟩ := Option.isSome_iff_exists.1 (h a List.mem_cons_self)
    obtain ⟨bs, hbs⟩ :=
      Option.isSome_iff_exists.1 (ih fun a' ha' => h a' (List.mem_cons_of_mem _ ha'))
    simp [List.mapM_cons, hb, hbs]

theorem Monitor.interrupt_ne_internalError (m : Monitor) : m.interrupt ≠ some .internalError := by
  unfold Monitor.interrupt
  split
  · simp
  · split <;> simp

namespace Side

/-- Every node that `s` reached through a link was reached along a link of `c` owned by the node
that was settled, towards the node reached. -/
def Recorded (c : Csr) (s : Side) : Prop :=
  ∀ n d i, s.reached.getD n none = some (d, some i) →
    i ∈ c.linksOf (c.owner i) ∧ c.head.getD i 0 = n

variable {c : Csr}

theorem recorded_write {s : Side} (h : s.Recorded c) {n cost : Nat} {via : Option Nat}
    (hvia : ∀ i, via = some i → i ∈ c.linksOf (c.owner i) ∧ c.head.getD i 0 = n)
    (q : Queue (Nat × Nat)) :
    (⟨s.reached.setIfInBounds n (some (cost, via)), q⟩ : Side).Recorded c := by
  intro n' d i h'
  simp only [getD_setIfInBounds] at h'
  split at h'
  next hn =>
    obtain ⟨rfl, -⟩ := hn
    cases h'
    exact hvia i rfl
  next => exact h n' d i h'

theorem Recorded.offer {s : Side} (h : s.Recorded c) {n cost : Nat} {via : Option Nat}
    (hvia : ∀ i, via = some i → i ∈ c.linksOf (c.owner i) ∧ c.head.getD i 0 = n) :
    (s.offer n cost via).Recorded c := by
  unfold Side.offer
  split
  · split
    · exact recorded_write h hvia _
    · exact h
  · exact recorded_write h hvia _

theorem recorded_seeded (n : Nat) (seeds : List (Nat × Nat)) : (seeded n seeds).Recorded c := by
  refine foldl_invariant (Recorded c) ?_ fun s e _ hs => hs.offer fun i hi => by cases hi
  intro n' d i h
  rw [Array.getD_eq_getD_getElem?, Array.getElem?_replicate] at h
  split at h <;> cases h

end Side

namespace RoutingIndex

/-- Settling a node records links of that node only. -/
theorem Side.Recorded.settle {c : Csr} (hc : c.Owned) {own : Side} (h : own.Recorded c)
    (other : Side) (best : Nat) (meet : Option Nat) (cost node : Nat) :
    (settle c own other best meet cost node).1.Recorded c := by
  unfold RoutingIndex.settle
  split
  · exact h
  · simp only
    refine foldl_invariant (Side.Recorded c) h fun s i hi hs => hs.offer ?_
    intro j hj
    cases hj
    rw [hc node i hi]
    exact ⟨hi, rfl⟩

/-- How a search can end: in a meeting whose sides record upward and downward links, or with the
outcome that the monitor asks for. -/
def SearchEnd (x : RoutingIndex) (m : Monitor) : Except Outcome Meeting → Prop
  | .ok st => st.fwd.Recorded x.up ∧ st.bwd.Recorded x.down
  | .error o => m.interrupt = some o

theorem SearchEnd.of_tick {x : RoutingIndex} {m : Monitor} {r : Except Outcome Meeting}
    (h : x.SearchEnd m.tick r) : x.SearchEnd m r := by
  cases r with
  | ok st => exact h
  | error o => exact h

theorem interrupt_of_stopNow {m : Monitor} {o : Outcome} (h : m.stopNow? = some o) :
    m.interrupt = some o := by
  unfold Monitor.stopNow? at h
  split at h
  · exact h
  · cases h

/-- By induction on the fuel: every step settles a node on one side, which keeps what both sides
record, and a stop comes from the monitor. -/
theorem searchLoop_end {x : RoutingIndex} (hup : x.up.Owned) (hdown : x.down.Owned) (fuel : Nat) :
    ∀ st m, st.fwd.Recorded x.up → st.bwd.Recorded x.down →
      x.SearchEnd m (x.searchLoop fuel st m).1 := by
  induction fuel with
  | zero => exact fun st m hf hb => ⟨hf, hb⟩
  | succ fuel ih =>
    intro st m hf hb
    rw [searchLoop]
    simp only
    split
    · exact ⟨hf, hb⟩
    split
    · split
      · exact ⟨hf, hb⟩
      next cost node q _ =>
        split
        next o hstop => exact SearchEnd.of_tick (interrupt_of_stopNow hstop)
        next =>
          have hf' : Side.Recorded x.up ⟨st.fwd.reached, q⟩ := hf
          apply SearchEnd.of_tick
          exact ih _ _ (Side.Recorded.settle hup hf' _ _ _ _ _) hb
    · split
      · exact ⟨hf, hb⟩
      next cost node q _ =>
        split
        next o hstop => exact SearchEnd.of_tick (interrupt_of_stopNow hstop)
        next =>
          have hb' : Side.Recorded x.down ⟨st.bwd.reached, q⟩ := hb
          apply SearchEnd.of_tick
          exact ih _ _ hf (Side.Recorded.settle hdown hb' _ _ _ _ _)

/-- Walking back on the start side reads upward links, each from its owner to the node it leads
to. -/
theorem walkUp_links {x : RoutingIndex} {side : Side} (hs : side.Recorded x.up) (fuel : Nat) :
    ∀ n acc, (∀ e ∈ acc, e.2.2 ∈ x.up.linksOf e.1 ∧ x.up.head.getD e.2.2 0 = e.2.1) →
      ∀ e ∈ (x.walkUp side fuel n acc).2,
        e.2.2 ∈ x.up.linksOf e.1 ∧ x.up.head.getD e.2.2 0 = e.2.1 := by
  induction fuel with
  | zero => exact fun n acc hacc => hacc
  | succ fuel ih =>
    intro n acc hacc
    rw [walkUp]
    split
    next d i hi =>
      refine ih _ _ fun e he => ?_
      rcases List.mem_cons.1 he with rfl | he
      · exact hs n d i hi
      · exact hacc e he
    next => exact hacc

/-- Walking on from the meeting node on the finish side reads downward links, each into its owner
from the node it points back to. -/
theorem walkDown_links {x : RoutingIndex} {side : Side} (hs : side.Recorded x.down) (fuel : Nat) :
    ∀ n, ∀ e ∈ x.walkDown side fuel n,
      e.2.2 ∈ x.down.linksOf e.2.1 ∧ x.down.head.getD e.2.2 0 = e.1 := by
  induction fuel with
  | zero => exact fun n e he => absurd he List.not_mem_nil
  | succ fuel ih =>
    intro n e he
    rw [walkDown] at he
    split at he
    next d i hi =>
      rcases List.mem_cons.1 he with rfl | he
      · exact hs n d i hi
      · exact ih _ e he
    next => exact absurd he List.not_mem_nil

section Query

variable {real : Nat → Prop} {x : RoutingIndex}

/-- A link read on the start side is a kept link, and unpacks into a walk of road links between
its ends. -/
theorem unpack_of_up (hx : x.Resolvable real) {a b i : Nat}
    (h : i ∈ x.up.linksOf a ∧ x.up.head.getD i 0 = b) :
    ∃ p c, x.unpack (x.nodeCount + 1) a b (x.up.mid.getD i none) (x.up.feature.getD i 0) = some p ∧
      x.RoadWalk a b p c := by
  have hk : x.Keeps a (x.up.linkAt i) := .inl ⟨i, h.1, rfl⟩
  obtain ⟨p, c, hp, hw, -⟩ := hx.unpack_query hk
  rw [← h.2]
  exact ⟨p, c, hp, hw⟩

/-- A link read on the finish side is the mirror of a kept link, and unpacks into a walk of road
links between its ends. -/
theorem unpack_of_down (hx : x.Resolvable real) {a b i : Nat}
    (h : i ∈ x.down.linksOf b ∧ x.down.head.getD i 0 = a) :
    ∃ p c, x.unpack (x.nodeCount + 1) a b (x.down.mid.getD i none) (x.down.feature.getD i 0) =
      some p ∧ x.RoadWalk a b p c := by
  have hk : x.Keeps a { x.down.linkAt i with other := b } := by
    refine .inr ⟨i, h.1, ?_⟩
    simp [Csr.linkAt, h.2]
  obtain ⟨p, c, hp, hw, -⟩ := hx.unpack_query hk
  exact ⟨p, c, hp, hw⟩

/-- A query fails only with the outcome its monitor asks for: every link on the path it reads
back unpacks. -/
theorem queryBetween_error (hx : x.Resolvable real) (hup : x.up.Owned) (hdown : x.down.Owned)
    (sources targets : List (Nat × Nat)) (m : Monitor) {o : Outcome}
    (h : (x.queryBetween sources targets m).1 = .error o) : m.interrupt = some o := by
  have hend := searchLoop_end hup hdown (2 * (sources.length + targets.length + x.up.size +
    x.down.size + x.nodeCount) + 2) ⟨Side.seeded x.nodeCount sources,
    Side.seeded x.nodeCount targets, unreached, none⟩ m (Side.recorded_seeded _ _)
    (Side.recorded_seeded _ _)
  unfold queryBetween at h
  simp only at h
  split at h
  next o' m' hrun =>
    rw [hrun] at hend
    cases h
    exact hend
  next st m' hrun =>
    rw [hrun] at hend
    obtain ⟨hf, hb⟩ := hend
    split at h
    · cases h
    next meet _ =>
      split at h
      next hnone =>
        -- Every link read back unpacks, so the unpacking as a whole gives a result.
        refine absurd hnone (Option.ne_none_iff_isSome.2 (mapM_option_isSome fun l hl => ?_))
        rcases List.mem_append.1 hl with hl | hl
        · obtain ⟨e, he, rfl⟩ := List.mem_map.1 hl
          obtain ⟨p, -, hp, -⟩ :=
            unpack_of_up hx (walkUp_links hf _ meet [] (fun _ h => absurd h List.not_mem_nil) e he)
          exact Option.isSome_iff_exists.2 ⟨p, hp⟩
        · obtain ⟨e, he, rfl⟩ := List.mem_map.1 hl
          obtain ⟨p, -, hp, -⟩ := unpack_of_down hx (walkDown_links hb _ meet e he)
          exact Option.isSome_iff_exists.2 ⟨p, hp⟩
      next => cases h

/-- A query on a resolvable index never fails with an internal error. -/
theorem queryBetween_ne_internalError (hx : x.Resolvable real) (hup : x.up.Owned)
    (hdown : x.down.Owned) (sources targets : List (Nat × Nat)) (m : Monitor) :
    (x.queryBetween sources targets m).1 ≠ .error .internalError := fun h =>
  m.interrupt_ne_internalError (queryBetween_error hx hup hdown sources targets m h)

end Query

/-- Every index that `build` returns unpacks its shortcuts. A kept link `a → b` through `m`
bypasses a node ranked below both ends, and `linkBetween` reads the kept links `a → m` and `m → b`,
whose costs, added and capped, are the link's. Unpacking a kept link with the fuel a query gives
yields a walk of road links from `a` to `b` along features of the region, whose cost, capped, is
the link's. No query on the index fails with an internal error. -/
theorem build_unpacks_shortcuts {store : Store} {region readScale : Nat} {crossRegion : Bool}
    {x : RoutingIndex} (h : build store region crossRegion readScale = .ok x) :
    (∀ a l m, x.Keeps a l → l.mid = some m →
      x.rank.getD m 0 < x.rank.getD a 0 ∧ x.rank.getD m 0 < x.rank.getD l.other 0 ∧
        ∃ l₁ l₂, x.linkFrom a m = some l₁ ∧ x.linkFrom m l.other = some l₂ ∧
          x.linkBetween a m = some (l₁.mid, l₁.feature) ∧
          x.linkBetween m l.other = some (l₂.mid, l₂.feature) ∧
          addCost l₁.cost l₂.cost = l.cost) ∧
    (∀ a l, x.Keeps a l → ∃ p c,
      x.unpack (x.nodeCount + 1) a l.other l.mid l.feature = some p ∧
        x.RoadWalk a l.other p c ∧ min c costCap = l.cost ∧
        ∀ e ∈ p, e.2.2 ∈ store.regionFeatures region readScale) ∧
    ∀ sources targets mon, (x.queryBetween sources targets mon).1 ≠ .error .internalError := by
  have hx := resolvable_of_build h
  obtain ⟨-, -, hup, hdown⟩ := build_eq h
  have hupo : x.up.Owned := by
    rw [hup]
    exact Csr.owned_ofLists _
  have hdowno : x.down.Owned := by
    rw [hdown]
    exact Csr.owned_ofLists _
  refine ⟨fun a l m hl hm => ?_, fun a l hl => ?_, queryBetween_ne_internalError hx hupo hdowno⟩
  · obtain ⟨hra, hrb, -, l₁, l₂, hl₁, ho₁, hl₂, ho₂, hcost⟩ := hx.shortcut a l m hl hm
    refine ⟨hra, hrb, l₁, l₂, ?_, ?_, ?_, ?_, hcost.symm⟩
    · rw [← ho₁]
      exact hx.linkFrom a l₁ hl₁
    · rw [← ho₂]
      exact hx.linkFrom m l₂ hl₂
    · rw [← ho₁]
      exact hx.linkBetween hl₁
    · rw [← ho₂]
      exact hx.linkBetween hl₂
  · exact hx.unpack_query hl

/-- A region registered without roads builds an index with no links. -/
theorem build_unpacks_shortcuts_without_roads :
    let x : RoutingIndex := ⟨0, false, #[], #[], Csr.ofLists #[], Csr.ofLists #[], 0,
      SpatialTree.load [], SpatialTree.load []⟩
    build (StoreBuilder.empty.addRegion 0).build 0 false 2 = .ok x ∧
      (∀ a l m, x.Keeps a l → l.mid = some m →
        x.rank.getD m 0 < x.rank.getD a 0 ∧ x.rank.getD m 0 < x.rank.getD l.other 0 ∧
          ∃ l₁ l₂, x.linkFrom a m = some l₁ ∧ x.linkFrom m l.other = some l₂ ∧
            x.linkBetween a m = some (l₁.mid, l₁.feature) ∧
            x.linkBetween m l.other = some (l₂.mid, l₂.feature) ∧
            addCost l₁.cost l₂.cost = l.cost) ∧
      (∀ a l, x.Keeps a l → ∃ p c,
        x.unpack (x.nodeCount + 1) a l.other l.mid l.feature = some p ∧
          x.RoadWalk a l.other p c ∧ min c costCap = l.cost ∧
          ∀ e ∈ p, e.2.2 ∈ (StoreBuilder.empty.addRegion 0).build.regionFeatures 0 2) ∧
      ∀ sources targets mon, (x.queryBetween sources targets mon).1 ≠ .error .internalError := by
  intro x
  have hbuild : build (StoreBuilder.empty.addRegion 0).build 0 false 2 = .ok x := rfl
  exact ⟨hbuild, build_unpacks_shortcuts hbuild⟩

end RoutingIndex

end Wayfinder
