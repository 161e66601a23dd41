import Mathlib.Data.ENat.Lattice
import Wayfinder.Proofs.Index.Ranking
import Wayfinder.Proofs.Index.Witness

/-!
# Removing a node keeps the distances among the nodes left

`dist g u w` is the least cost of a walk from `u` to `w` over live nodes, `⊤` when there is none.
Removing a live node `v` keeps the distance between every two nodes still live
(`dist_removeNode`), as long as every sum of two link costs through `v` that contraction computes
stays below `costCap` (`SumsFit`).

A walk of the smaller graph is a walk of the larger one, each shortcut standing for the two links
it bypasses (`walk_of_walk_removeNode`). A walk of the larger graph gives one of the smaller at no
more cost (`walk_removeNode_of_walk`): each pass through `v` is replaced by the shortcut added for
it, or by the witness walk that made the shortcut unneeded (`bypass_walk`). The main statement,
`contraction_keeps_distances`, follows the rounds of a contraction.
-/

namespace Wayfinder

namespace Contractor

/-- Every sum that removing `v` computes, of a link into `v` from a live node and a link out of `v`
to another live node, stays below `costCap`. -/
def SumsFit (g : Contractor) (v : Nat) : Prop :=
  ∀ u, ∀ l₁ ∈ (g.outOf u).toList, l₁.other = v → ∀ l₂ ∈ (g.outOf v).toList,
    g.isContracted u = false → g.isContracted l₂.other = false → u ≠ v → l₂.other ≠ v →
      l₂.other ≠ u → l₁.cost + l₂.cost < costCap

/-- The least cost of a walk from `u` to `w` over live nodes, `⊤` when there is none. -/
noncomputable def dist (g : Contractor) (u w : Nat) : ℕ∞ :=
  ⨅ (c : ℕ) (_ : g.Walk (fun x => g.isContracted x = false) u w c), (c : ℕ∞)

variable {g : Contractor}

theorem dist_le_of_walk {u w c : Nat} (h : g.Walk (fun x => g.isContracted x = false) u w c) :
    g.dist u w ≤ c :=
  iInf₂_le c h

/-- A graph is no farther than another when every walk of the other has one in it at no more
cost. -/
theorem dist_le_dist {g' : Contractor} {u w : Nat}
    (h : ∀ c, g.Walk (fun x => g.isContracted x = false) u w c →
      ∃ c' ≤ c, g'.Walk (fun x => g'.isContracted x = false) u w c') :
    g'.dist u w ≤ g.dist u w :=
  le_iInf₂ fun c hc => by
    obtain ⟨c', hc', h'⟩ := h c hc
    exact (dist_le_of_walk h').trans (by exact_mod_cast hc')

/-! ## Adding shortcuts -/

section AddLink

variable {src dst c : Nat} {m : Option Nat} {f : Nat}

/-- Adding a link leaves a link between the ends of every link there, at no more cost. -/
theorem Wf.exists_link_addLink (hw : g.Wf) (hsrc : src < g.pos.size) {x : Nat} {l : Link}
    (hl : l ∈ (g.outOf x).toList) :
    ∃ l' ∈ ((g.addLink src dst c m f).outOf x).toList, l'.other = l.other ∧ l'.cost ≤ l.cost := by
  by_cases hwr : g.Writes src dst c
  · by_cases hx : x = src
    · subst hx
      by_cases ho : l.other = dst
      · exact ⟨⟨dst, c, m, f⟩, (mem_outOf_addLink hw hsrc hwr).2 (.inl rfl), ho.symm,
          Nat.le_of_lt (hwr l hl ho)⟩
      · exact ⟨l, (mem_outOf_addLink hw hsrc hwr).2 (.inr ⟨hl, ho⟩), rfl, Nat.le_refl _⟩
    · exact ⟨l, by rw [outOf_addLink_of_ne hx]; exact hl, rfl, Nat.le_refl _⟩
  · exact ⟨l, by rw [addLink_of_not_writes hw hwr]; exact hl, rfl, Nat.le_refl _⟩

/-- After adding a link, its pair is joined at no more than its cost. -/
theorem Wf.linked_addLink (hw : g.Wf) (hsrc : src < g.pos.size) :
    ∃ l' ∈ ((g.addLink src dst c m f).outOf src).toList, l'.other = dst ∧ l'.cost ≤ c := by
  by_cases hwr : g.Writes src dst c
  · exact ⟨⟨dst, c, m, f⟩, (mem_outOf_addLink hw hsrc hwr).2 (.inl rfl), rfl, Nat.le_refl _⟩
  · obtain ⟨l, hl, hlw, hle⟩ : ∃ l ∈ (g.outOf src).toList, l.other = dst ∧ l.cost ≤ c := by
      simpa [Writes] using hwr
    exact ⟨l, by rw [addLink_of_not_writes hw hwr]; exact hl, hlw, hle⟩

/-- A link after adding one is a link from before, or the one added. -/
theorem Wf.mem_outOf_addLink_cases (hw : g.Wf) (hsrc : src < g.pos.size) {x : Nat} {l : Link}
    (hl : l ∈ ((g.addLink src dst c m f).outOf x).toList) :
    l ∈ (g.outOf x).toList ∨ (x = src ∧ l = ⟨dst, c, m, f⟩) := by
  by_cases hwr : g.Writes src dst c
  · by_cases hx : x = src
    · subst hx
      rcases (mem_outOf_addLink hw hsrc hwr).1 hl with rfl | ⟨hl, -⟩
      · exact .inr ⟨rfl, rfl⟩
      · exact .inl hl
    · rw [outOf_addLink_of_ne hx] at hl
      exact .inl hl
  · rw [addLink_of_not_writes hw hwr] at hl
    exact .inl hl

theorem Wf.exists_link_foldl_addLink (L : List (Nat × Nat × Nat)) {h : Contractor} (hw : h.Wf)
    (hL : ∀ s ∈ L, s.1 < h.pos.size ∧ s.2.1 < h.pos.size) {x : Nat} {l : Link}
    (hl : l ∈ (h.outOf x).toList) :
    ∃ l' ∈ ((L.foldl (fun h s => h.addLink s.1 s.2.1 s.2.2 m f) h).outOf x).toList,
      l'.other = l.other ∧ l'.cost ≤ l.cost := by
  induction L generalizing h l with
  | nil => exact ⟨l, hl, rfl, Nat.le_refl _⟩
  | cons s L ih =>
    have hs := hL s List.mem_cons_self
    have hw' : (h.addLink s.1 s.2.1 s.2.2 m f).Wf := hw.addLink hs.1 hs.2
    obtain ⟨l₁, hl₁, ho₁, hc₁⟩ := hw.exists_link_addLink hs.1 hl
    obtain ⟨l₂, hl₂, ho₂, hc₂⟩ := ih hw'
      (fun s' hs' => by rw [addLink_pos]; exact hL s' (List.mem_cons_of_mem _ hs')) hl₁
    exact ⟨l₂, hl₂, ho₂.trans ho₁, Nat.le_trans hc₂ hc₁⟩

theorem Wf.linked_foldl_addLink (L : List (Nat × Nat × Nat)) {h : Contractor} (hw : h.Wf)
    (hL : ∀ s ∈ L, s.1 < h.pos.size ∧ s.2.1 < h.pos.size) {s : Nat × Nat × Nat} (hs : s ∈ L) :
    ∃ l' ∈ ((L.foldl (fun h s => h.addLink s.1 s.2.1 s.2.2 m f) h).outOf s.1).toList,
      l'.other = s.2.1 ∧ l'.cost ≤ s.2.2 := by
  induction L generalizing h with
  | nil => exact absurd hs List.not_mem_nil
  | cons t L ih =>
    have ht := hL t List.mem_cons_self
    have hw' : (h.addLink t.1 t.2.1 t.2.2 m f).Wf := hw.addLink ht.1 ht.2
    have hL' : ∀ s ∈ L, s.1 < (h.addLink t.1 t.2.1 t.2.2 m f).pos.size ∧
        s.2.1 < (h.addLink t.1 t.2.1 t.2.2 m f).pos.size := fun s' hs' => by
      rw [addLink_pos]
      exact hL s' (List.mem_cons_of_mem _ hs')
    rcases List.mem_cons.1 hs with rfl | hs
    · -- The link just added is kept, at no more cost, by the ones after it.
      obtain ⟨l₁, hl₁, ho₁, hc₁⟩ : ∃ l' ∈ ((h.addLink s.1 s.2.1 s.2.2 m f).outOf s.1).toList,
          l'.other = s.2.1 ∧ l'.cost ≤ s.2.2 := hw.linked_addLink ht.1
      obtain ⟨l₂, hl₂, ho₂, hc₂⟩ := hw'.exists_link_foldl_addLink L hL' hl₁
      exact ⟨l₂, hl₂, ho₂.trans ho₁, Nat.le_trans hc₂ hc₁⟩
    · exact ih hw' hL' hs

theorem Wf.mem_outOf_foldl_addLink (L : List (Nat × Nat × Nat)) {h : Contractor} (hw : h.Wf)
    (hL : ∀ s ∈ L, s.1 < h.pos.size ∧ s.2.1 < h.pos.size) {x : Nat} {l : Link}
    (hl : l ∈ ((L.foldl (fun h s => h.addLink s.1 s.2.1 s.2.2 m f) h).outOf x).toList) :
    l ∈ (h.outOf x).toList ∨ (x, l.other, l.cost) ∈ L := by
  induction L generalizing h with
  | nil => exact .inl hl
  | cons s L ih =>
    have hs := hL s List.mem_cons_self
    have hw' : (h.addLink s.1 s.2.1 s.2.2 m f).Wf := hw.addLink hs.1 hs.2
    rcases ih hw'
      (fun s' hs' => by rw [addLink_pos]; exact hL s' (List.mem_cons_of_mem _ hs')) hl with hl | hl
    · rcases hw.mem_outOf_addLink_cases hs.1 hl with hl | ⟨rfl, rfl⟩
      · exact .inl hl
      · exact .inr List.mem_cons_self
    · exact .inr (List.mem_cons_of_mem _ hl)

end AddLink

/-! ## The links after removing a node -/

/-- The shortcuts of `v` join nodes of the graph. -/
theorem Wf.shortcuts_bounded (hw : g.Wf) (v : Nat) :
    ∀ s ∈ g.shortcuts v, s.1 < g.pos.size ∧ s.2.1 < g.pos.size := by
  rintro ⟨u, w, c⟩ hs
  obtain ⟨l₁, hl₁, -, l₂, hl₂, hw₂, -⟩ := mem_shortcuts hw hs
  exact ⟨hw.lt_of_mem_outOf hl₁, hw₂ ▸ hw.bounded v l₂ hl₂⟩

theorem Wf.removeNode_keeps (hw : g.Wf) (v : Nat) {x : Nat} {l : Link}
    (hl : l ∈ (g.outOf x).toList) :
    ∃ l' ∈ ((g.removeNode v).outOf x).toList, l'.other = l.other ∧ l'.cost ≤ l.cost := by
  rw [outOf_removeNode]
  exact hw.exists_link_foldl_addLink _ (hw.shortcuts_bounded v) hl

theorem Wf.removeNode_shortcut (hw : g.Wf) {v u w c : Nat} (hs : (u, w, c) ∈ g.shortcuts v) :
    ∃ l' ∈ ((g.removeNode v).outOf u).toList, l'.other = w ∧ l'.cost ≤ c := by
  rw [outOf_removeNode]
  exact hw.linked_foldl_addLink _ (hw.shortcuts_bounded v) hs

theorem Wf.mem_outOf_removeNode (hw : g.Wf) {v x : Nat} {l : Link}
    (hl : l ∈ ((g.removeNode v).outOf x).toList) :
    l ∈ (g.outOf x).toList ∨ (x, l.other, l.cost) ∈ g.shortcuts v := by
  rw [outOf_removeNode] at hl
  exact hw.mem_outOf_foldl_addLink _ (hw.shortcuts_bounded v) hl

/-! ## Walks before and after removing a node -/

section Remove

variable {v : Nat} (hw : g.Wf) (hvn : v < g.pos.size) (hv : g.isContracted v = false)
  (hfit : g.SumsFit v)
include hw hvn hv hfit

/-- A walk after removing `v` is a walk before, at the same cost: a shortcut stands for the two
links it bypasses. -/
theorem walk_of_walk_removeNode {u w c : Nat}
    (h : (g.removeNode v).Walk (fun x => (g.removeNode v).isContracted x = false) u w c) :
    g.Walk (fun x => g.isContracted x = false) u w c := by
  have hcon := isContracted_removeNode hw.contracted_size hvn
  induction h with
  | refl => exact .refl
  | @snoc x c l _ hl hlive ih =>
    rw [hcon, Bool.or_eq_false_iff, decide_eq_false_iff_not] at hlive
    rcases hw.mem_outOf_removeNode hl with hl | hs
    · exact ih.snoc hl hlive.2
    · obtain ⟨l₁, hl₁, hv₁, l₂, hl₂, ho₂, hc, hxv, -, hwx, hx, -⟩ := mem_shortcuts hw hs
      have hfits := hfit x l₁ hl₁ hv₁ l₂ hl₂ hx (ho₂ ▸ hlive.2) hxv (ho₂ ▸ hlive.1) (ho₂ ▸ hwx)
      have hcost : l.cost = l₁.cost + l₂.cost := by
        rw [hc, addCost]
        omega
      have h₁ := ih.snoc hl₁ (show g.isContracted l₁.other = false by rw [hv₁]; exact hv)
      rw [hv₁] at h₁
      rw [hcost, ← Nat.add_assoc, ← ho₂]
      exact h₁.snoc hl₂ (ho₂ ▸ hlive.2)

omit hv in
/-- A pair of links `z → v → y` between two different live nodes other than `v` is matched, once
`v` is removed, by a walk over the nodes left at no more than the pair's cost: the shortcut added
for it, or the witness walk that made the shortcut unneeded. -/
theorem bypass_walk {z : Nat} {l₀ l : Link} (hl₀ : l₀ ∈ (g.outOf z).toList) (hv₀ : l₀.other = v)
    (hl : l ∈ (g.outOf v).toList) (hz : g.isContracted z = false)
    (hy : g.isContracted l.other = false) (hzv : z ≠ v) (hyv : l.other ≠ v) (hyz : l.other ≠ z) :
    ∃ c ≤ l₀.cost + l.cost,
      (g.removeNode v).Walk (fun x => (g.removeNode v).isContracted x = false) z l.other c := by
  have hcon := isContracted_removeNode hw.contracted_size hvn
  have hfits := hfit z l₀ hl₀ hv₀ l hl hz hy hzv hyv hyz
  have hok : ∀ x, (x ≠ v ∧ g.isContracted x = false) → (g.removeNode v).isContracted x = false :=
    fun x hx => by rw [hcon, hx.2, decide_eq_false hx.1]; rfl
  rcases shortcut_or_witness hw hl₀ hv₀ hl hz hy hzv hyv hyz with hs | ⟨mx, -, d, hd, hdle⟩
  · obtain ⟨l', hl', ho, hc⟩ := hw.removeNode_shortcut hs
    refine ⟨l'.cost, by rw [addCost] at hc; omega, ?_⟩
    rw [← ho]
    exact Walk.single hl' (hok _ ⟨ho ▸ hyv, ho ▸ hy⟩)
  · -- The label is below the cap, so it is the witness walk's own cost.
    obtain ⟨c, hwalk, rfl⟩ := witness_label hd
    have hc : c ≤ l₀.cost + l.cost := by
      rw [addCost] at hdle
      omega
    obtain ⟨c', hc', hwalk'⟩ := hwalk.lift hok fun x _ l' hl' _ => hw.removeNode_keeps v hl'
    exact ⟨c', Nat.le_trans hc' hc, hwalk'⟩

/-- A walk over live nodes from a live node other than `v` gives, once `v` is removed, a walk at no
more cost to the same end when the end is not `v`; when it ends at `v`, a walk at no more cost to
the live node it last entered `v` from. -/
theorem walk_removeNode_of_walk {u x c : Nat} (hu : g.isContracted u = false) (huv : u ≠ v)
    (h : g.Walk (fun y => g.isContracted y = false) u x c) :
    (x ≠ v → ∃ c' ≤ c, (g.removeNode v).Walk (fun y => (g.removeNode v).isContracted y = false) u x c') ∧
      (x = v → ∃ z c₁, ∃ l₀ ∈ (g.outOf z).toList, l₀.other = v ∧ z ≠ v ∧
        g.isContracted z = false ∧ c₁ + l₀.cost ≤ c ∧
        ∃ c' ≤ c₁, (g.removeNode v).Walk (fun y => (g.removeNode v).isContracted y = false) u z c') := by
  have hcon := isContracted_removeNode hw.contracted_size hvn
  induction h with
  | refl => exact ⟨fun _ => ⟨0, Nat.le_refl _, .refl⟩, fun h => absurd h huv⟩
  | @snoc x₀ c₀ l hx₀ hl hlive ih =>
    have hlive₀ : g.isContracted x₀ = false := by
      rcases hx₀.end_ok with rfl | h
      · exact hu
      · exact h
    by_cases hx₀v : x₀ = v
    · -- The walk comes out of `v`: bypass the last pass through it.
      subst hx₀v
      obtain ⟨z, c₁, l₀, hl₀, hv₀, hzv, hz, hc₁, c', hc', hwalk⟩ := ih.2 rfl
      refine ⟨fun hyv => ?_, fun hyv => ⟨z, c₁, l₀, hl₀, hv₀, hzv, hz, by omega, c', hc', hwalk⟩⟩
      by_cases hyz : l.other = z
      · exact ⟨c', by omega, hyz ▸ hwalk⟩
      · obtain ⟨cb, hcb, hbypass⟩ := bypass_walk hw hvn hfit hl₀ hv₀ hl hz hlive hzv hyv hyz
        exact ⟨c' + cb, by omega, hwalk.append hbypass⟩
    · obtain ⟨c', hc', hwalk⟩ := ih.1 hx₀v
      refine ⟨fun hyv => ?_, fun hyv => ⟨x₀, c₀, l, hl, hyv, hx₀v, hlive₀, Nat.le_refl _, c', hc', hwalk⟩⟩
      -- A link between two nodes other than `v` stays, at no more cost.
      obtain ⟨l', hl', ho, hle⟩ := hw.removeNode_keeps v hl
      refine ⟨c' + l'.cost, by omega, ?_⟩
      rw [← ho]
      exact hwalk.snoc hl' (by rw [hcon, ho, hlive, decide_eq_false hyv]; rfl)

/-- Removing a live node `v` whose sums fit keeps the distance between every two nodes left. -/
theorem dist_removeNode {u w : Nat} (hu : (g.removeNode v).isContracted u = false)
    (hw' : (g.removeNode v).isContracted w = false) :
    (g.removeNode v).dist u w = g.dist u w := by
  have hcon := isContracted_removeNode hw.contracted_size hvn
  rw [hcon, Bool.or_eq_false_iff, decide_eq_false_iff_not] at hu hw'
  refine le_antisymm (dist_le_dist fun c hc => ?_) (dist_le_dist fun c hc => ?_)
  · exact (walk_removeNode_of_walk hw hvn hv hfit hu.2 hu.1 hc).1 hw'.1
  · exact ⟨c, Nat.le_refl _, walk_of_walk_removeNode hw hvn hv hfit hc⟩

end Remove

/-- Contracting a graph made by interning points and adding links keeps distances: in every round,
the distance between two nodes still live after it is what it was before, when the sums the
round computes fit below `costCap`. Every shortcut of the node a round removes costs its two links
together; a pair of links through that node between two different live nodes gets no shortcut
only when the witness search from the first labelled the second at no more than the pair's cost;
and every label of a witness search is the cost of a walk from its source over live nodes other
than the one avoided, capped at `costCap`. -/
theorem contraction_keeps_distances {g : Contractor} (hg : g.Assembled) :
    (∀ r ∈ (Round.start g).trace, ∀ r', r.step = some r' →
      (∀ v, r.removed = some v → r.graph.SumsFit v) →
      ∀ u w, r'.graph.isContracted u = false → r'.graph.isContracted w = false →
        r'.graph.dist u w = r.graph.dist u w) ∧
    (∀ r ∈ (Round.start g).trace, ∀ v, r.removed = some v → r.graph.SumsFit v →
      ∀ u w c, (u, w, c) ∈ r.graph.shortcuts v → ∃ l₁ ∈ (r.graph.outOf u).toList, l₁.other = v ∧
        ∃ l₂ ∈ (r.graph.outOf v).toList, l₂.other = w ∧ c = l₁.cost + l₂.cost) ∧
    (∀ r ∈ (Round.start g).trace, ∀ v, r.removed = some v → r.graph.SumsFit v →
      ∀ u, ∀ l₁ ∈ (r.graph.outOf u).toList, l₁.other = v → ∀ l₂ ∈ (r.graph.outOf v).toList,
        r.graph.isContracted u = false → r.graph.isContracted l₂.other = false → u ≠ v →
        l₂.other ≠ v → l₂.other ≠ u → (u, l₂.other, l₁.cost + l₂.cost) ∉ r.graph.shortcuts v →
        ∃ mx, l₁.cost + l₂.cost ≤ mx ∧ ∃ d, (r.graph.witness u v mx).getD l₂.other none = some d ∧
          d ≤ l₁.cost + l₂.cost) ∧
    (∀ r ∈ (Round.start g).trace, ∀ u v mx x d, (r.graph.witness u v mx).getD x none = some d →
      ∃ c, r.graph.Walk (fun y => y ≠ v ∧ r.graph.isContracted y = false) u x c ∧
        d = min c costCap) := by
  have hsound := Round.forall_mem_trace (fun _ _ h hs => Round.Sound.step h hs) (Round.sound_start hg)
  refine ⟨fun r hr r' hs hfit u w hu hw => ?_, fun r hr v _ hfit u w c hsc => ?_,
    fun r hr v _ hfit u l₁ hl₁ hv₁ l₂ hl₂ hu hlive huv hwv hwu hnot => ?_,
    fun r _ u v mx x d hd => witness_label hd⟩
  · obtain ⟨prio, v, q, hpop, ⟨-, rfl, -⟩ | ⟨-, -, rfl, -⟩ | ⟨hc, -, rfl, hrem⟩⟩ := Round.step_cases hs
    · rfl
    · rfl
    · have hvn : v < r.graph.pos.size :=
        (hsound r hr).entries (prio, v) (by rw [pop?_items hpop]; exact List.mem_cons_self)
      exact dist_removeNode (hsound r hr).wf hvn hc (hfit v hrem) hu hw
  · obtain ⟨l₁, hl₁, hv₁, l₂, hl₂, hw₂, hc, huv, hwv, hwu, hu, hw⟩ := mem_shortcuts (hsound r hr).wf hsc
    have hfits := hfit u l₁ hl₁ hv₁ l₂ hl₂ hu (hw₂ ▸ hw) huv (hw₂ ▸ hwv) (hw₂ ▸ hwu)
    refine ⟨l₁, hl₁, hv₁, l₂, hl₂, hw₂, ?_⟩
    rw [hc, addCost]
    omega
  · have hsum : addCost l₁.cost l₂.cost = l₁.cost + l₂.cost := by
      have := hfit u l₁ hl₁ hv₁ l₂ hl₂ hu hlive huv hwv hwu
      rw [addCost]
      omega
    rw [← hsum] at hnot ⊢
    exact (shortcut_or_witness (hsound r hr).wf hl₁ hv₁ hl₂ hu hlive huv hwv hwu).resolve_left hnot

/-- A single node with a link to itself. -/
theorem contraction_keeps_distances_of_loop :
    let g₀ := (Contractor.empty.intern ⟨0.0, 0.0⟩).2.addLink 0 0 7 none 3
    g₀.Assembled ∧
    (∀ r ∈ (Round.start g₀).trace, ∀ r', r.step = some r' →
      (∀ v, r.removed = some v → r.graph.SumsFit v) →
      ∀ u w, r'.graph.isContracted u = false → r'.graph.isContracted w = false →
        r'.graph.dist u w = r.graph.dist u w) ∧
    (∀ r ∈ (Round.start g₀).trace, ∀ v, r.removed = some v → r.graph.SumsFit v →
      ∀ u w c, (u, w, c) ∈ r.graph.shortcuts v → ∃ l₁ ∈ (r.graph.outOf u).toList, l₁.other = v ∧
        ∃ l₂ ∈ (r.graph.outOf v).toList, l₂.other = w ∧ c = l₁.cost + l₂.cost) ∧
    (∀ r ∈ (Round.start g₀).trace, ∀ v, r.removed = some v → r.graph.SumsFit v →
      ∀ u, ∀ l₁ ∈ (r.graph.outOf u).toList, l₁.other = v → ∀ l₂ ∈ (r.graph.outOf v).toList,
        r.graph.isContracted u = false → r.graph.isContracted l₂.other = false → u ≠ v →
        l₂.other ≠ v → l₂.other ≠ u → (u, l₂.other, l₁.cost + l₂.cost) ∉ r.graph.shortcuts v →
        ∃ mx, l₁.cost + l₂.cost ≤ mx ∧ ∃ d, (r.graph.witness u v mx).getD l₂.other none = some d ∧
          d ≤ l₁.cost + l₂.cost) ∧
    (∀ r ∈ (Round.start g₀).trace, ∀ u v mx x d, (r.graph.witness u v mx).getD x none = some d →
      ∃ c, r.graph.Walk (fun y => y ≠ v ∧ r.graph.isContracted y = false) u x c ∧
        d = min c costCap) := by
  intro g₀
  have hg : g₀.Assembled := .addLink 7 none 3 (.intern _ .empty) (by decide) (by decide)
  exact ⟨hg, contraction_keeps_distances hg⟩

end Contractor

end Wayfinder
