import Wayfinder.Proofs.Index.Contraction

/-!
# Witness searches find real walks

A walk follows links of the graph: `Walk g ok u w c` goes from `u` to `w` at total cost `c`, every
node after `u` passing `ok`. A witness search from `u` that avoids `v` labels nodes with the costs
of walks from `u` over live nodes other than `v`, capped at `costCap` the way its sums are
(`witness_label`). This holds of every label, whichever stops the search: the queue running dry,
the cost bound or the settle limit.

A shortcut of `v` costs what its two links cost together (`mem_shortcuts`). A pair of links
`u → v → w` between two different live nodes other than `v` is left without a shortcut only when
the search from `u`, bounded by at least the pair's cost, labelled `w` at no more than that cost
(`shortcut_or_witness`).
-/

namespace Wayfinder

namespace Contractor

/-- A walk from `u` to `w` along the links of `g`, of total cost `c`, every node after `u`
passing `ok`. -/
inductive Walk (g : Contractor) (ok : Nat → Prop) (u : Nat) : Nat → Nat → Prop
  | refl : Walk g ok u u 0
  | snoc {x c : Nat} {l : Link} : Walk g ok u x c → l ∈ (g.outOf x).toList → ok l.other →
      Walk g ok u l.other (c + l.cost)

section Walk

variable {g : Contractor} {ok : Nat → Prop}

theorem Walk.append {u x w a b : Nat} (h₁ : g.Walk ok u x a) (h₂ : g.Walk ok x w b) :
    g.Walk ok u w (a + b) := by
  induction h₂ with
  | refl => simpa using h₁
  | snoc _ hl hok ih =>
    rw [← Nat.add_assoc]
    exact ih.snoc hl hok

theorem Walk.single {u : Nat} {l : Link} (hl : l ∈ (g.outOf u).toList) (hok : ok l.other) :
    g.Walk ok u l.other l.cost := by
  simpa using (Walk.refl : g.Walk ok u u 0).snoc hl hok

/-- A walk ends where it starts or at a node passing `ok`. -/
theorem Walk.end_ok {u w c : Nat} (h : g.Walk ok u w c) : w = u ∨ ok w := by
  cases h with
  | refl => exact .inl rfl
  | snoc _ _ hok => exact .inr hok

/-- A walk carries over to a graph that has, for every link the walk may take, a link between the
same nodes at no more cost. -/
theorem Walk.lift {g' : Contractor} {ok' : Nat → Prop} (hok : ∀ x, ok x → ok' x) {u w c : Nat}
    (h : g.Walk ok u w c)
    (hlink : ∀ x, (x = u ∨ ok x) → ∀ l ∈ (g.outOf x).toList, ok l.other →
      ∃ l' ∈ (g'.outOf x).toList, l'.other = l.other ∧ l'.cost ≤ l.cost) :
    ∃ c' ≤ c, g'.Walk ok' u w c' := by
  induction h with
  | refl => exact ⟨0, Nat.le_refl _, .refl⟩
  | @snoc x c l hx hl hlok ih =>
    obtain ⟨c', hc', hx'⟩ := ih
    obtain ⟨l', hl', hother, hcost⟩ := hlink x hx.end_ok l hl hlok
    refine ⟨c' + l'.cost, by omega, ?_⟩
    rw [← hother]
    exact hx'.snoc hl' (hother ▸ hok _ hlok)

end Walk

/-! ## Labels of a witness search -/

/-- `d` is the cost, capped at `costCap`, of a walk from `u` to `x` over live nodes other than
`avoid`. -/
def Reached (g : Contractor) (u avoid x d : Nat) : Prop :=
  ∃ c, g.Walk (fun y => y ≠ avoid ∧ g.isContracted y = false) u x c ∧ d = min c costCap

/-- Every label of a witness search is a capped walk cost. -/
def Labels (g : Contractor) (u avoid : Nat) (dist : Array (Option Nat)) : Prop :=
  ∀ x d, dist.getD x none = some d → g.Reached u avoid x d

/-- Every label and every queue entry of a witness search is a capped walk cost. -/
def Labelled (g : Contractor) (u avoid : Nat) (acc : Array (Option Nat) × Queue (Nat × Nat)) :
    Prop :=
  g.Labels u avoid acc.1 ∧ ∀ e ∈ acc.2.items, g.Reached u avoid e.2 e.1

/-- Capping before adding a cost and capping after agree. -/
theorem addCost_min (a b : Nat) : addCost (min a costCap) b = min (a + b) costCap := by
  unfold addCost
  omega

variable {g : Contractor} {u avoid : Nat}

/-- Labelling a node with a capped walk cost, and queueing it, keeps every label a walk cost. -/
theorem Labelled.label {dist : Array (Option Nat)} {q : Queue (Nat × Nat)}
    (h : g.Labelled u avoid (dist, q)) {x c : Nat} (hx : g.Reached u avoid x c) :
    g.Labelled u avoid (dist.setIfInBounds x (some c), q.push Queue.pairLt (c, x)) := by
  refine ⟨fun y d hy => ?_, fun e he => ?_⟩
  · rw [getD_setIfInBounds] at hy
    split at hy
    · next hxy =>
      rw [← hxy.1, ← Option.some.inj hy]
      exact hx
    · exact h.1 y d hy
  · rcases List.mem_cons.1 ((place_perm Queue.pairLt (c, x) q.items).mem_iff.1 he) with rfl | he
    · exact hx
    · exact h.2 e he

/-- One relaxation from a node reached at a capped walk cost keeps every label a walk cost. -/
theorem Labelled.relax {acc : Array (Option Nat) × Queue (Nat × Nat)} (h : g.Labelled u avoid acc)
    {node cost : Nat} (hn : g.Reached u avoid node cost) {l : Link} (hl : l ∈ (g.outOf node).toList) :
    g.Labelled u avoid (g.witnessRelax avoid cost acc l) := by
  obtain ⟨dist, q⟩ := acc
  obtain ⟨c, hc, rfl⟩ := hn
  unfold witnessRelax
  simp only
  split
  · exact h
  · next hskip =>
    -- The link extends the walk to its other end, a live node other than `avoid`.
    have hok : l.other ≠ avoid ∧ g.isContracted l.other = false := by
      simpa [Bool.or_eq_true, not_or] using hskip
    have hreach : g.Reached u avoid l.other (addCost (min c costCap) l.cost) :=
      ⟨c + l.cost, hc.snoc hl hok, addCost_min c l.cost⟩
    split
    · split
      · exact h.label hreach
      · exact h
    · exact h.label hreach

theorem Labelled.foldl_relax {acc : Array (Option Nat) × Queue (Nat × Nat)}
    (h : g.Labelled u avoid acc) {node cost : Nat} (hn : g.Reached u avoid node cost) :
    g.Labelled u avoid ((g.outOf node).foldl (g.witnessRelax avoid cost) acc) := by
  rw [← Array.foldl_toList]
  exact foldl_invariant _ h fun acc l hl hacc => hacc.relax hn hl

/-- By induction on the fuel: the search keeps every label a capped walk cost, whichever way it
stops. -/
theorem Labelled.witnessLoop {maxCost : Nat} {fuel : Nat} :
    ∀ {dist : Array (Option Nat)} {q : Queue (Nat × Nat)} {settled : Nat},
      g.Labelled u avoid (dist, q) → g.Labels u avoid (g.witnessLoop avoid maxCost fuel dist q settled) := by
  induction fuel with
  | zero => exact fun h => h.1
  | succ fuel ih =>
    intro dist q settled h
    rw [Contractor.witnessLoop]
    cases hpop : q.pop? with
    | none => exact h.1
    | some p =>
      obtain ⟨⟨cost, node⟩, q'⟩ := p
      have hitems := pop?_items hpop
      -- The entry taken was a capped walk cost, and the entries left are.
      have hn : g.Reached u avoid node cost := h.2 (cost, node) (by rw [hitems]; exact List.mem_cons_self)
      have h' : g.Labelled u avoid (dist, q') :=
        ⟨h.1, fun e he => h.2 e (by rw [hitems]; exact List.mem_cons_of_mem _ he)⟩
      have hrelax := h'.foldl_relax hn
      simp only
      split
      · exact h.1
      · split
        · split
          · exact ih h'
          · exact ih hrelax
        · exact ih hrelax

/-- Every label of a witness search from `u` avoiding `v` is the cost of a walk from `u` over live
nodes other than `v`, capped at `costCap`. -/
theorem witness_label {u v maxCost x d : Nat} (h : (g.witness u v maxCost).getD x none = some d) :
    ∃ c, g.Walk (fun y => y ≠ v ∧ g.isContracted y = false) u x c ∧ d = min c costCap := by
  have hstart : g.Labelled u v ((Array.replicate g.pos.size none).setIfInBounds u (some 0),
      Queue.empty.push Queue.pairLt (0, u)) := by
    refine ⟨fun y d hy => ?_, fun e he => ?_⟩
    · rw [getD_setIfInBounds] at hy
      split at hy
      · next hu =>
        rw [← hu.1, ← Option.some.inj hy]
        exact ⟨0, .refl, rfl⟩
      · -- No other node is labelled at the start.
        rw [Array.getD_eq_getD_getElem?, Array.getElem?_replicate] at hy
        split at hy <;> cases hy
    · rw [show (Queue.empty.push Queue.pairLt (0, u)).items = [(0, u)] from rfl,
        List.mem_singleton] at he
      rw [he]
      exact ⟨0, .refl, rfl⟩
  exact hstart.witnessLoop x d h

/-! ## Shortcuts and witnesses -/

/-- A pair of links `u → v → w` between two different live nodes other than `v` either asks for
a shortcut at the pair's cost, or the witness search from `u`, bounded by at least that cost,
labelled `w` at no more. -/
theorem shortcut_or_witness (hw : g.Wf) {v : Nat} {l₁ l₂ : Link} (hl₁ : l₁ ∈ (g.outOf u).toList)
    (hv : l₁.other = v) (hl₂ : l₂ ∈ (g.outOf v).toList) (hu : g.isContracted u = false)
    (hlive : g.isContracted l₂.other = false) (huv : u ≠ v) (hwv : l₂.other ≠ v)
    (hwu : l₂.other ≠ u) :
    (u, l₂.other, addCost l₁.cost l₂.cost) ∈ g.shortcuts v ∨
      ∃ mx, addCost l₁.cost l₂.cost ≤ mx ∧ ∃ d, (g.witness u v mx).getD l₂.other none = some d ∧
        d ≤ addCost l₁.cost l₂.cost := by
  -- The link into `v` as the in-list holds it.
  have hIn : (⟨u, l₁.cost, l₁.mid, l₁.feature⟩ : Link) ∈ (g.incOf v).toList := by
    refine (hw.mirror u v _ _ _).1 ?_
    rw [← hv]
    exact hl₁
  let targets := ((g.outOf v).toList.filter fun l =>
    !g.isContracted l.other && l.other ≠ u && l.other ≠ v).map fun l =>
      (l.other, addCost l₁.cost l.cost)
  have htarget : (l₂.other, addCost l₁.cost l₂.cost) ∈ targets :=
    List.mem_map.2 ⟨l₂, List.mem_filter.2 ⟨hl₂, by simp [hlive, hwu, hwv]⟩, rfl⟩
  obtain ⟨mx, hmx⟩ : ∃ mx, (targets.map Prod.snd).max? = some mx :=
    Option.isSome_iff_exists.1 (List.isSome_max?_of_mem (List.mem_map_of_mem htarget))
  have hle : addCost l₁.cost l₂.cost ≤ mx :=
    (List.max?_eq_some_iff.1 hmx).2 _ (List.mem_map_of_mem htarget)
  by_cases hfound : ∃ d, (g.witness u v mx).getD l₂.other none = some d ∧ d ≤ addCost l₁.cost l₂.cost
  · exact .inr ⟨mx, hle, hfound⟩
  · refine .inl (List.mem_flatMap.2 ⟨_, hIn, ?_⟩)
    simp only [hu, huv, decide_false, Bool.or_false, Bool.false_eq_true, if_false]
    rw [show ((((g.outOf v).toList.filter fun l =>
        !g.isContracted l.other && l.other ≠ u && l.other ≠ v).map fun l =>
          (l.other, addCost l₁.cost l.cost)).map Prod.snd).max? = some mx from hmx]
    refine List.mem_filterMap.2 ⟨_, htarget, ?_⟩
    simp only
    split
    · next d hd =>
      rw [if_pos (Nat.lt_of_not_le fun hd' => hfound ⟨d, hd, hd'⟩)]
    · rfl

end Contractor

end Wayfinder
