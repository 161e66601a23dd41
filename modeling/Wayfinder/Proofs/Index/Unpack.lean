import Wayfinder.Index.Query
import Wayfinder.Proofs.Index.Layout

/-!
# Unpacking the shortcuts of an index

An index keeps each link of its contracted graph once (`Keeps`): with its source when it climbs in
rank, with its target otherwise. `linkFrom a b` is the link that `linkBetween a b` reads, with its
cost. A `RoadWalk` leads from one node to another along road links that `linkFrom` reads.

`Resolvable real x` is what unpacking needs of an index: every kept link is the one `linkFrom`
reads between its ends; a road link runs along a feature that `real` accepts and costs at most
`costCap`; a shortcut through `m` stands for the kept links `a → m` and `m → b`, costs what they
cost together, capped, and `m` ranks below both ends. Unpacking then follows the ranks down
(`Resolvable.unpack`): with more fuel than the rank of the node a link bypasses, it gives a walk of
road links between the link's ends whose cost, capped, is the link's. Every index that `build`
returns is resolvable (`resolvable_of_build`), and its ranks stay below its number of nodes, so the
fuel a query gives always suffices.
-/

namespace Wayfinder

/-- A source has one link to each node. -/
theorem Contractor.Wf.eq_of_mem_outOf {g : Contractor} (hw : g.Wf) {a : Nat} {l₁ l₂ : Link}
    (h₁ : l₁ ∈ (g.outOf a).toList) (h₂ : l₂ ∈ (g.outOf a).toList) (h : l₁.other = l₂.other) :
    l₁ = l₂ :=
  List.inj_on_of_nodup_map (hw.out_nodup a) h₁ h₂ h

theorem Store.feature_id {s : Store} {r id : Nat} {f : Feature} (h : s.feature r id = .ok f) :
    f.id = id := by
  unfold Store.feature at h
  split at h
  next f' hf =>
    cases h
    obtain ⟨fs, -, hfind⟩ := Option.bind_eq_some_iff.1 hf
    simpa using List.find?_some hfind
  next => cases h

/-- Capping a sum is capping the sum of the capped terms. -/
theorem min_add_costCap (c₁ c₂ : Nat) :
    min (c₁ + c₂) costCap = addCost (min c₁ costCap) (min c₂ costCap) := by
  unfold addCost
  omega

namespace RoutingIndex

/-- The index keeps the link `l` from `a`: among the upward links of `a`, or among the downward
links of `l.other`, pointing back to `a`. -/
def Keeps (x : RoutingIndex) (a : Nat) (l : Link) : Prop :=
  (∃ i ∈ x.up.linksOf a, x.up.linkAt i = l) ∨
    ∃ i ∈ x.down.linksOf l.other, x.down.linkAt i = { l with other := a }

/-- The link from `a` to `b` that `linkBetween` reads, with its cost. -/
def linkFrom (x : RoutingIndex) (a b : Nat) : Option Link :=
  if x.rank.getD b 0 > x.rank.getD a 0 then (x.up.find a b).map x.up.linkAt
  else (x.down.find b a).map fun i => { x.down.linkAt i with other := b }

theorem linkBetween_eq (x : RoutingIndex) (a b : Nat) :
    x.linkBetween a b = (x.linkFrom a b).map fun l => (l.mid, l.feature) := by
  unfold linkBetween linkFrom
  split <;> simp [Option.map_map, Function.comp_def, Csr.linkAt]

/-- What `linkFrom` reads is a link the index keeps, towards `b`. -/
theorem keeps_of_linkFrom {x : RoutingIndex} {a b : Nat} {l : Link} (h : x.linkFrom a b = some l) :
    x.Keeps a l ∧ l.other = b := by
  unfold linkFrom at h
  split at h
  · obtain ⟨i, hi, rfl⟩ := Option.map_eq_some_iff.1 h
    obtain ⟨hmem, hhead⟩ := Csr.find_spec hi
    exact ⟨.inl ⟨i, hmem, rfl⟩, hhead⟩
  · obtain ⟨i, hi, rfl⟩ := Option.map_eq_some_iff.1 h
    obtain ⟨hmem, hhead⟩ := Csr.find_spec hi
    refine ⟨.inr ⟨i, hmem, ?_⟩, rfl⟩
    simp [Csr.linkAt, hhead]

/-- `p` leads from `a` to `b` along road links that `linkFrom` reads, each as
`(from, to, feature)`, and its links cost `c` in all. -/
inductive RoadWalk (x : RoutingIndex) : Nat → Nat → List (Nat × Nat × Nat) → Nat → Prop
  | nil (a : Nat) : RoadWalk x a a [] 0
  | cons {a v b d f c : Nat} {p : List (Nat × Nat × Nat)} :
      x.linkFrom a v = some ⟨v, d, none, f⟩ → RoadWalk x v b p c →
        RoadWalk x a b ((a, v, f) :: p) (d + c)

theorem RoadWalk.append {x : RoutingIndex} {a m b c d : Nat} {p q : List (Nat × Nat × Nat)}
    (h₁ : x.RoadWalk a m p c) (h₂ : x.RoadWalk m b q d) : x.RoadWalk a b (p ++ q) (c + d) := by
  induction h₁ with
  | nil => simpa using h₂
  | cons hl _ ih =>
    rw [List.cons_append, Nat.add_assoc]
    exact .cons hl (ih h₂)

/-- What unpacking needs of an index. -/
structure Resolvable (real : Nat → Prop) (x : RoutingIndex) : Prop where
  linkFrom : ∀ a l, x.Keeps a l → x.linkFrom a l.other = some l
  road : ∀ a l, x.Keeps a l → l.mid = none → real l.feature ∧ l.cost ≤ costCap
  shortcut : ∀ a l m, x.Keeps a l → l.mid = some m →
    x.rank.getD m 0 < x.rank.getD a 0 ∧ x.rank.getD m 0 < x.rank.getD l.other 0 ∧
      x.rank.getD m 0 < x.nodeCount ∧
      ∃ l₁ l₂, x.Keeps a l₁ ∧ l₁.other = m ∧ x.Keeps m l₂ ∧ l₂.other = l.other ∧
        l.cost = addCost l₁.cost l₂.cost

section Resolvable

variable {real : Nat → Prop} {x : RoutingIndex}

/-- `linkBetween` reads a kept link's bypassed node and feature. -/
theorem Resolvable.linkBetween (hx : x.Resolvable real) {a : Nat} {l : Link} (hl : x.Keeps a l) :
    x.linkBetween a l.other = some (l.mid, l.feature) := by
  rw [linkBetween_eq, hx.linkFrom a l hl]
  rfl

/-- A road link unpacks to itself, with any fuel. -/
theorem Resolvable.unpack_road (hx : x.Resolvable real) {a : Nat} {l : Link} (hl : x.Keeps a l)
    (hm : l.mid = none) (fuel : Nat) :
    ∃ p c, x.unpack fuel a l.other none l.feature = some p ∧ x.RoadWalk a l.other p c ∧
      min c costCap = l.cost ∧ ∀ e ∈ p, real e.2.2 := by
  obtain ⟨hreal, hcap⟩ := hx.road a l hl hm
  have hlink : x.linkFrom a l.other = some ⟨l.other, l.cost, none, l.feature⟩ := by
    rw [hx.linkFrom a l hl, ← hm]
  refine ⟨[(a, l.other, l.feature)], l.cost + 0, ?_, .cons hlink (.nil l.other), ?_, ?_⟩
  · cases fuel <;> rfl
  · rw [Nat.add_zero]
    exact Nat.min_eq_left hcap
  · intro e he
    rw [List.mem_singleton] at he
    subst he
    exact hreal

/-- By induction on the fuel: a kept link whose bypassed node ranks below the fuel unpacks into a
walk of road links between its ends, whose cost, capped, is the link's. Each half of a shortcut
bypasses a node ranked below the shortcut's, so one level of fuel pays for one level of ranks. -/
theorem Resolvable.unpack (hx : x.Resolvable real) (fuel : Nat) :
    ∀ a l, x.Keeps a l → (∀ m, l.mid = some m → x.rank.getD m 0 < fuel) →
      ∃ p c, x.unpack fuel a l.other l.mid l.feature = some p ∧ x.RoadWalk a l.other p c ∧
        min c costCap = l.cost ∧ ∀ e ∈ p, real e.2.2 := by
  induction fuel with
  | zero =>
    intro a l hl hfuel
    cases hm : l.mid with
    | none => exact hx.unpack_road hl hm 0
    | some m => exact absurd (hfuel m hm) (Nat.not_lt_zero _)
  | succ fuel ih =>
    intro a l hl hfuel
    cases hm : l.mid with
    | none => exact hx.unpack_road hl hm (fuel + 1)
    | some m =>
      obtain ⟨-, -, -, l₁, l₂, hl₁, ho₁, hl₂, ho₂, hcost⟩ := hx.shortcut a l m hl hm
      have hrank : x.rank.getD m 0 < fuel + 1 := hfuel m hm
      have hfuel₁ : ∀ m₁, l₁.mid = some m₁ → x.rank.getD m₁ 0 < fuel := by
        intro m₁ hm₁
        have hbelow := (hx.shortcut a l₁ m₁ hl₁ hm₁).2.1
        rw [ho₁] at hbelow
        omega
      have hfuel₂ : ∀ m₂, l₂.mid = some m₂ → x.rank.getD m₂ 0 < fuel := by
        intro m₂ hm₂
        have hbelow := (hx.shortcut m l₂ m₂ hl₂ hm₂).1
        omega
      obtain ⟨p₁, c₁, hp₁, hw₁, hc₁, hr₁⟩ := ih a l₁ hl₁ hfuel₁
      obtain ⟨p₂, c₂, hp₂, hw₂, hc₂, hr₂⟩ := ih m l₂ hl₂ hfuel₂
      have hb₁ := hx.linkBetween hl₁
      have hb₂ := hx.linkBetween hl₂
      rw [ho₁] at hp₁ hw₁ hb₁
      rw [ho₂] at hp₂ hw₂ hb₂
      refine ⟨p₁ ++ p₂, c₁ + c₂, ?_, hw₁.append hw₂, ?_, ?_⟩
      · simp [RoutingIndex.unpack, hb₁, hb₂, hp₁, hp₂]
      · rw [hcost, min_add_costCap, hc₁, hc₂]
      · intro e he
        rcases List.mem_append.1 he with he | he
        · exact hr₁ e he
        · exact hr₂ e he

/-- The fuel of a query, one more than the number of nodes, unpacks every kept link. -/
theorem Resolvable.unpack_query (hx : x.Resolvable real) {a : Nat} {l : Link} (hl : x.Keeps a l) :
    ∃ p c, x.unpack (x.nodeCount + 1) a l.other l.mid l.feature = some p ∧
      x.RoadWalk a l.other p c ∧ min c costCap = l.cost ∧ ∀ e ∈ p, real e.2.2 :=
  hx.unpack _ a l hl fun m hm => Nat.lt_succ_of_lt (hx.shortcut a l m hl hm).2.2.1

end Resolvable

/-! ## Built indexes -/

section Split

variable {x : RoutingIndex} {g : Contractor} (hw : g.Wf)
  (hup : x.up = Csr.ofLists (splitLists g x.rank).1)
  (hdown : x.down = Csr.ofLists (splitLists g x.rank).2)
include hw hup hdown

/-- An index laid out from `g` keeps exactly the links of `g`. -/
theorem keeps_iff {a : Nat} {l : Link} : x.Keeps a l ↔ l ∈ (g.outOf a).toList := by
  constructor
  · rintro (⟨i, hi, rfl⟩ | ⟨i, hi, hli⟩)
    · rw [hup] at hi ⊢
      exact ((mem_splitLists_up hw).1 (Csr.linkAt_mem_ofLists hi)).1
    · rw [hdown] at hi hli
      have hmem := (mem_splitLists_down hw).1 (hli ▸ Csr.linkAt_mem_ofLists hi)
      simpa using hmem.1
  · intro hl
    by_cases hr : x.rank.getD a 0 < x.rank.getD l.other 0
    · left
      rw [hup]
      exact Csr.exists_linkAt_ofLists ((mem_splitLists_up hw).2 ⟨hl, hr⟩)
    · right
      rw [hdown]
      exact Csr.exists_linkAt_ofLists ((mem_splitLists_down hw).2 ⟨hl, hr⟩)

/-- `linkFrom` reads every link of `g` between its ends: `find` answers a link of the half that
holds it, towards the same node, and a node has one link to each other node. -/
theorem linkFrom_of_mem {a : Nat} {l : Link} (hl : l ∈ (g.outOf a).toList) :
    x.linkFrom a l.other = some l := by
  unfold linkFrom
  split
  next hr =>
    obtain ⟨j, hj, hjmem, hjo⟩ := Csr.find_ofLists ((mem_splitLists_up hw).2 ⟨hl, hr⟩)
    have hjl := ((mem_splitLists_up hw).1 hjmem).1
    rw [hup, hj, Option.map_some, hw.eq_of_mem_outOf hjl hl hjo]
  next hr =>
    have hback : { l with other := a } ∈ ((splitLists g x.rank).2.getD l.other #[]).toList :=
      (mem_splitLists_down hw).2 ⟨hl, hr⟩
    obtain ⟨j, hj, hjmem, hjo⟩ := Csr.find_ofLists hback
    -- The link found points back to `a`: it is the mirror of the link `a → l.other`, that is `l`.
    have hjl := ((mem_splitLists_down hw).1 hjmem).1
    rw [hjo] at hjl
    rw [hdown, hj, Option.map_some]
    exact congrArg some (hw.eq_of_mem_outOf hjl hl rfl)

end Split

/-- The junction graph of a region is a graph before contraction, whose links run along the
region's features. -/
theorem original_regionGraph (store : Store) (region readScale : Nat) :
    (regionGraph store region readScale).Original (· ∈ store.regionFeatures region readScale) := by
  apply Contractor.original_of_features
  intro f hf
  obtain ⟨id, hid, hf⟩ := List.mem_filterMap.1 hf
  cases hfeat : store.feature region id with
  | error e =>
    rw [hfeat] at hf
    cases hf
  | ok f' =>
    rw [hfeat] at hf
    cases hf
    rw [Store.feature_id hfeat]
    exact hid

/-- An index laid out from a graph whose nodes are all contracted is resolvable. -/
theorem resolvable_of_contracted {real : Nat → Prop} {x : RoutingIndex} {g : Contractor}
    {next : Nat} (hc : g.Contracting real x.rank next)
    (hall : ∀ v < g.pos.size, g.isContracted v = true) (hpos : x.nodePos = g.pos)
    (hup : x.up = Csr.ofLists (splitLists g x.rank).1)
    (hdown : x.down = Csr.ofLists (splitLists g x.rank).2) : x.Resolvable real := by
  have hkeeps : ∀ a l, x.Keeps a l ↔ l ∈ (g.outOf a).toList := fun _ _ => keeps_iff hc.wf hup hdown
  -- Every node is contracted, so every rank is below the number of nodes.
  have hcount : next ≤ x.nodeCount := by
    rw [nodeCount, hpos]
    exact hc.next_le
  refine ⟨fun a l hl => linkFrom_of_mem hc.wf hup hdown ((hkeeps a l).1 hl),
    fun a l hl hm => hc.road a l ((hkeeps a l).1 hl) hm, fun a l m hl hm => ?_⟩
  have hl' := (hkeeps a l).1 hl
  obtain ⟨hmc, ⟨l₁, hl₁, ho₁, l₂, hl₂, ho₂, hcost⟩, hra, hrb⟩ := hc.shortcut a l hl' m hm
  subst ho₁
  refine ⟨hra (hall a (hc.wf.lt_of_mem_outOf hl')), hrb (hall _ (hc.wf.bounded a l hl')),
    Nat.lt_of_lt_of_le (hc.ranked _ hmc) hcount, l₁, l₂, (hkeeps a l₁).2 hl₁, rfl,
    (hkeeps _ l₂).2 hl₂, ho₂, hcost⟩

/-- Every index that `build` returns is resolvable, along the features of its region. -/
theorem resolvable_of_build {store : Store} {region readScale : Nat} {crossRegion : Bool}
    {x : RoutingIndex} (h : build store region crossRegion readScale = .ok x) :
    x.Resolvable (· ∈ store.regionFeatures region readScale) := by
  obtain ⟨hpos, hrank, hup, hdown⟩ := build_eq h
  obtain ⟨hall, hpos', next, hc⟩ := (original_regionGraph store region readScale).contract
  rw [← hrank] at hup hdown hc
  refine resolvable_of_contracted hc (fun v hv => hall v ?_) hpos hup hdown
  rw [← hpos']
  exact hv

end RoutingIndex

end Wayfinder
