import Mathlib.Data.List.Perm.Subperm
import Wayfinder.Proofs.Index.Contraction

/-!
# Contraction ranks every node once

A graph to contract is `Assembled`: made from no nodes by interning points and adding links
between nodes already interned. Its contraction goes through the finite list of rounds
`Round.trace`, finite because every round lowers the work left (`Round.work_step`), and `contract`
returns the graph and ranks of its last round, the first whose queue is empty.

`Round.Sound` holds in every round: the links are well formed, every queue entry names a node,
every live node has exactly one entry, and the contracted nodes have distinct ranks below the next
rank, which counts them. From it, the nodes the rounds remove are all the nodes, each once
(`Round.Sound.removed_trace_perm`), and the ranks are a permutation of `0, …, n - 1`
(`Ranked.perm_range`). The main statement is `contract_ranks_every_node_once`.
-/

namespace Wayfinder

namespace Contractor

/-- The graphs contraction starts from: made from no nodes by interning points and adding links
between nodes already interned, at any cost, through any node and along any feature. -/
inductive Assembled : Contractor → Prop
  | empty : Assembled empty
  | intern {g : Contractor} (p : Point) : Assembled g → Assembled (g.intern p).2
  | addLink {g : Contractor} {src dst : Nat} (cost : Nat) (mid : Option Nat) (feature : Nat) :
      Assembled g → src < g.pos.size → dst < g.pos.size →
        Assembled (g.addLink src dst cost mid feature)

theorem Assembled.wf {g : Contractor} (h : g.Assembled) : g.Wf := by
  induction h with
  | empty => exact (original_empty fun _ => True).wf
  | intern p _ ih => exact ih.intern p
  | addLink cost mid feature _ hsrc hdst ih => exact ih.addLink hsrc hdst

theorem Assembled.live {g : Contractor} (h : g.Assembled) (v : Nat) : g.isContracted v = false := by
  induction h with
  | empty => rfl
  | intern p _ ih =>
    rw [isContracted_intern]
    exact ih
  | addLink cost mid feature _ _ _ ih =>
    rw [isContracted, addLink_contracted]
    exact ih

/-- Once every node is contracted, the ranks are a permutation of `0, …, n - 1`. -/
theorem Ranked.perm_range {g : Contractor} {rank : Array Nat} {next : Nat} (h : Ranked g rank next)
    (hall : ∀ v < g.pos.size, g.isContracted v = true) :
    rank.toList.Perm (List.range g.pos.size) := by
  have hnext : next = g.pos.size := by
    rw [h.count, List.filter_eq_self.2 fun v hv => hall v (List.mem_range.1 hv), List.length_range]
  have hget : ∀ i (hi : i < rank.toList.length), rank.toList[i] = rank.getD i 0 := by
    intro i hi
    rw [Array.getElem_toList, Array.getD_eq_getD_getElem?, Array.getElem?_eq_getElem]
    rfl
  have hsize : rank.toList.length = g.pos.size := by rw [Array.length_toList, h.rank_size]
  -- Two nodes of one rank are one node.
  have hnodup : rank.toList.Nodup := by
    refine List.nodup_iff_injective_getElem.2 fun i j hij => Fin.ext ?_
    simp only [hget] at hij
    exact h.distinct i j (hall i (hsize ▸ i.2)) (hall j (hsize ▸ j.2)) hij
  have hsub : rank.toList ⊆ List.range g.pos.size := by
    intro x hx
    obtain ⟨i, hi, rfl⟩ := List.mem_iff_getElem.1 hx
    rw [hget, List.mem_range, ← hnext]
    exact h.ranked i (hall i (hsize ▸ hi))
  exact (List.subperm_of_subset hnodup hsub).perm_of_length_le (by simp [hsize])

namespace Round

/-- The first round of contracting `g`: every node queued with its priority, no rank given. -/
def start (g : Contractor) : Round :=
  ⟨g, (List.range g.pos.size).foldl (fun q v => q.push entryLt (g.priority v, v)) Queue.empty,
    Array.replicate g.pos.size 0, 0⟩

/-- The rounds the loop goes through from `r`, `r` first, until the queue is empty. -/
def trace (r : Round) : List Round :=
  r :: match _hs : r.step with
    | none => []
    | some r' => trace r'
termination_by r.work
decreasing_by exact work_step _hs

theorem trace_of_step_none {r : Round} (h : r.step = none) : r.trace = [r] := by
  rw [trace]
  split <;> simp_all

theorem trace_of_step_some {r r' : Round} (h : r.step = some r') : r.trace = r :: r'.trace := by
  rw [trace]
  split <;> simp_all

/-- Induction along the rounds: what holds of a round with an empty queue, and of a round
whenever it holds of the next one, holds of every round. -/
theorem induction_on_steps {P : Round → Prop} (hnone : ∀ r, r.step = none → P r)
    (hsome : ∀ r r', r.step = some r' → P r' → P r) (r : Round) : P r := by
  induction hw : r.work using Nat.strongRecOn generalizing r with
  | _ n ih =>
    cases hs : r.step with
    | none => exact hnone r hs
    | some r' => exact hsome r r' hs (ih r'.work (hw ▸ work_step hs) r' rfl)

/-- What every round keeps holds of every round of the trace. -/
theorem forall_mem_trace {I : Round → Prop} (hstep : ∀ r r', I r → r.step = some r' → I r')
    {r : Round} (hr : I r) : ∀ r' ∈ r.trace, I r' := by
  induction r using induction_on_steps with
  | hnone r hs =>
    rw [trace_of_step_none hs]
    intro r' hr'
    rw [List.mem_singleton.1 hr']
    exact hr
  | hsome r r'' hs ih =>
    rw [trace_of_step_some hs]
    intro r' hr'
    rcases List.mem_cons.1 hr' with rfl | hr'
    · exact hr
    · exact ih (hstep r r'' hr hs) r' hr'

/-- By induction on the fuel: while the fuel exceeds the work left, the loop returns the graph and
ranks of a round of the trace whose queue is empty. -/
theorem contractLoop_eq_last {fuel : Nat} {r : Round} (hfuel : r.work < fuel) :
    ∃ r' ∈ r.trace, r'.step = none ∧
      contractLoop fuel r.graph r.queue r.rank r.next = (r'.graph, r'.rank) := by
  induction fuel generalizing r with
  | zero => exact absurd hfuel (Nat.not_lt_zero _)
  | succ fuel ih =>
    cases hs : r.step with
    | none =>
      refine ⟨r, by rw [trace_of_step_none hs]; exact List.mem_singleton_self r, hs, ?_⟩
      exact contractLoop_of_step_none hs
    | some r'' =>
      obtain ⟨r', hr', hnone, heq⟩ := ih (Nat.lt_of_lt_of_le (work_step hs) (Nat.lt_succ_iff.1 hfuel))
      refine ⟨r', by rw [trace_of_step_some hs]; exact List.mem_cons_of_mem r hr', hnone, ?_⟩
      rw [contractLoop_of_step_some hs, heq]

/-- At the start only the square of the number of entries is left to do. -/
theorem work_start (g : Contractor) : (start g).work = g.pos.size * g.pos.size := by
  have hperm := queue_perm g (List.range g.pos.size) Queue.empty
  rw [show (Queue.empty : Queue (Int × Nat)).items = [] from rfl, List.append_nil] at hperm
  dsimp only [work, workLeft, start]
  rw [staleCount_perm g hperm, hperm.length_eq, List.length_map, List.length_range, staleCount,
    List.filter_eq_nil_iff.2 (by simp), List.length_nil, Nat.zero_add]

/-- Contraction returns the graph and ranks of the last round of its trace. -/
theorem contract_eq_last (g : Contractor) :
    ∃ r ∈ (start g).trace, r.step = none ∧ g.contract = (r.graph, r.rank) := by
  have hfuel : (start g).work < (g.pos.size + 1) * (g.pos.size + 1) + 1 := by
    rw [work_start]
    have : g.pos.size * g.pos.size < (g.pos.size + 1) * (g.pos.size + 1) :=
      Nat.mul_self_lt_mul_self (by omega)
    omega
  exact contractLoop_eq_last hfuel

/-- Contraction keeps the nodes. -/
theorem pos_mem_trace {r : Round} : ∀ r' ∈ r.trace, r'.graph.pos = r.graph.pos :=
  forall_mem_trace (I := fun r' => r'.graph.pos = r.graph.pos) (fun r₁ r₂ h hs => by
    obtain ⟨prio, v, q, -, ⟨-, rfl, -⟩ | ⟨-, -, rfl, -⟩ | ⟨-, -, rfl, -⟩⟩ := step_cases hs
    · exact h
    · exact h
    · exact (removeNode_pos v).trans h) rfl

/-! ## What holds in every round -/

/-- What holds in every round of contracting an assembled graph: well-formed links, the ranks
given so far, queue entries naming nodes, and exactly one entry for every live node. -/
structure Sound (r : Round) : Prop where
  wf : r.graph.Wf
  ranked : Ranked r.graph r.rank r.next
  entries : ∀ e ∈ r.queue.items, e.2 < r.graph.pos.size
  single : ∀ v < r.graph.pos.size, r.graph.isContracted v = false →
    (r.queue.items.map Prod.snd).count v = 1

/-- The first round: every node is queued once, and none is ranked. -/
theorem sound_start {g : Contractor} (hg : g.Assembled) : (start g).Sound := by
  have hperm := queue_perm g (List.range g.pos.size) Queue.empty
  rw [show (Queue.empty : Queue (Int × Nat)).items = [] from rfl, List.append_nil] at hperm
  refine ⟨hg.wf, ⟨Array.size_replicate, fun v hv => ?_, fun v _ hv => ?_, ?_⟩, fun e he => ?_,
    fun v hv _ => ?_⟩
  · rw [show (start g).graph = g from rfl, hg.live v] at hv
    cases hv
  · rw [show (start g).graph = g from rfl, hg.live v] at hv
    cases hv
  · rw [List.filter_eq_nil_iff.2 fun x _ => by exact Bool.eq_false_iff.1 (hg.live x)]
    rfl
  · obtain ⟨x, hx, rfl⟩ := List.mem_map.1 (hperm.mem_iff.1 he)
    exact List.mem_range.1 hx
  · dsimp only [start]
    rw [(hperm.map Prod.snd).count_eq, List.map_map,
      show (Prod.snd ∘ fun v => (g.priority v, v)) = id from rfl, List.map_id,
      List.nodup_range.count, if_pos (List.mem_range.2 (show v < g.pos.size from hv))]

/-- Every round keeps the state sound. -/
theorem Sound.step {r r' : Round} (h : r.Sound) (hs : r.step = some r') : r'.Sound := by
  obtain ⟨prio, v, q, hpop, hcase⟩ := step_cases hs
  have hitems := pop?_items hpop
  have hv : v < r.graph.pos.size := h.entries (prio, v) (by rw [hitems]; exact List.mem_cons_self)
  have hqn : ∀ e ∈ q.items, e.2 < r.graph.pos.size :=
    fun e he => h.entries e (by rw [hitems]; exact List.mem_cons_of_mem _ he)
  -- Past the entry taken, every node other than `v` has the entries it had.
  have hcount : ∀ w, w ≠ v →
      (q.items.map Prod.snd).count w = (r.queue.items.map Prod.snd).count w := by
    intro w hwv
    rw [hitems, List.map_cons, List.count_cons_of_ne (Ne.symm hwv)]
  rcases hcase with ⟨hc, rfl, -⟩ | ⟨hc, -, rfl, -⟩ | ⟨hc, -, rfl, -⟩
  · -- The entry of a contracted node is dropped.
    refine ⟨h.wf, h.ranked, hqn, fun w hw hcw => ?_⟩
    have hwv : w ≠ v := fun hwv => by rw [hwv, hc] at hcw; cases hcw
    rw [hcount w hwv]
    exact h.single w hw hcw
  · -- A node whose priority grew goes back with the new priority, in place of its old entry.
    have hperm := place_perm entryLt (r.graph.priority v, v) q.items
    have hsnd : ((r.graph.priority v, v) :: q.items).map Prod.snd = r.queue.items.map Prod.snd := by
      rw [hitems]
      rfl
    refine ⟨h.wf, h.ranked, fun e he => ?_, fun w hw hcw => ?_⟩
    · rcases List.mem_cons.1 (hperm.mem_iff.1 he) with rfl | he
      · exact hv
      · exact hqn e he
    · show ((Queue.place entryLt (r.graph.priority v, v) q.items).map Prod.snd).count w = 1
      rw [(hperm.map Prod.snd).count_eq, hsnd]
      exact h.single w hw hcw
  · -- The node is removed: it is no longer live, and its entry is gone.
    have hpos : (r.graph.removeNode v).pos = r.graph.pos := removeNode_pos v
    have hcon := isContracted_removeNode h.wf.contracted_size hv
    refine ⟨h.wf.removeNode v, h.ranked.removeNode h.wf hv hc, fun e he => ?_,
      fun w hw hcw => ?_⟩
    · rw [hpos]
      exact hqn e he
    · rw [hcon, Bool.or_eq_false_iff, decide_eq_false_iff_not] at hcw
      rw [hcount w hcw.1]
      exact h.single w (by rw [← hpos]; exact hw) hcw.2

/-- A node marked live in a list of distinct nodes, taken out of the live ones. -/
theorem perm_cons_filter_live {l : List Nat} (hl : l.Nodup) {c : Nat → Bool} {v : Nat} (hv : v ∈ l)
    (hc : c v = false) :
    (v :: l.filter fun x => !(decide (x = v) || c x)).Perm (l.filter fun x => !c x) := by
  have hmem : v ∈ l.filter fun x => !c x := List.mem_filter.2 ⟨hv, by simp [hc]⟩
  refine List.Perm.trans ?_ (List.perm_cons_erase hmem).symm
  rw [(hl.filter _).erase_eq_filter, List.filter_filter]
  refine List.Perm.cons v (List.Perm.of_eq (List.filter_congr fun x _ => ?_))
  by_cases hx : x = v <;> simp [hx]

/-- From a sound round on, the rounds remove every live node, each once. -/
theorem Sound.removed_trace_perm {r : Round} (h : r.Sound) :
    (r.trace.filterMap removed).Perm
      ((List.range r.graph.pos.size).filter fun v => !r.graph.isContracted v) := by
  induction r using induction_on_steps with
  | hnone r hs =>
    -- An empty queue: no node is left live, and nothing is removed.
    have hnil := step_eq_none hs
    have hrem : r.removed = none := by
      rw [removed, show r.queue.pop? = none by rw [Queue.pop?, hnil]]
    rw [trace_of_step_none hs, List.filterMap_cons_none hrem, List.filterMap_nil,
      List.filter_eq_nil_iff.2 fun v hv hlive => ?_]
    have := h.single v (List.mem_range.1 hv) (by simpa using hlive)
    rw [hnil] at this
    cases this
  | hsome r r' hs ih =>
    have ih := ih (h.step hs)
    rw [trace_of_step_some hs]
    obtain ⟨prio, v, q, hpop, hcase⟩ := step_cases hs
    rcases hcase with ⟨-, rfl, hrem⟩ | ⟨-, -, rfl, hrem⟩ | ⟨hc, -, rfl, hrem⟩
    · rw [List.filterMap_cons_none hrem]
      exact ih
    · rw [List.filterMap_cons_none hrem]
      exact ih
    · have hv : v < r.graph.pos.size :=
        h.entries (prio, v) (by rw [pop?_items hpop]; exact List.mem_cons_self)
      rw [List.filterMap_cons_some hrem]
      refine (ih.cons v).trans ?_
      have hcon := isContracted_removeNode h.wf.contracted_size hv
      simp only [removeNode_pos, hcon]
      exact perm_cons_filter_live List.nodup_range (List.mem_range.2 hv) hc

end Round

/-- Contraction of a graph made by interning points and adding links ends, in the last round of a
finite list of rounds, the first with an empty queue; it removes every node exactly once and ranks
the nodes by a permutation of `0, …, n - 1`; in every round each live node has exactly one queue
entry; and every shortcut a round adds joins two live nodes other than the one removed. -/
theorem contract_ranks_every_node_once {g : Contractor} (hg : g.Assembled) :
    (∃ r ∈ (Round.start g).trace, r.step = none ∧ g.contract = (r.graph, r.rank)) ∧
      g.contract.2.toList.Perm (List.range g.pos.size) ∧
      ((Round.start g).trace.filterMap Round.removed).Perm (List.range g.pos.size) ∧
      (∀ r ∈ (Round.start g).trace, ∀ v < g.pos.size, r.graph.isContracted v = false →
        (r.queue.items.map Prod.snd).count v = 1) ∧
      (∀ r ∈ (Round.start g).trace, ∀ v, r.removed = some v → ∀ s ∈ r.graph.shortcuts v,
        r.graph.isContracted s.1 = false ∧ r.graph.isContracted s.2.1 = false ∧
          s.1 ≠ v ∧ s.2.1 ≠ v) := by
  have hsound := Round.forall_mem_trace (fun _ _ h hs => Round.Sound.step h hs) (Round.sound_start hg)
  have hpos : ∀ r ∈ (Round.start g).trace, r.graph.pos = g.pos := fun r hr => Round.pos_mem_trace r hr
  obtain ⟨r, hr, hnone, hcontract⟩ := Round.contract_eq_last g
  refine ⟨⟨r, hr, hnone, hcontract⟩, ?_, ?_, fun r hr v hv hlive => ?_, fun r hr v _ s hs => ?_⟩
  · -- In the last round the queue is empty, so every node is contracted.
    have hall : ∀ v < r.graph.pos.size, r.graph.isContracted v = true := by
      intro v hv
      cases hc : r.graph.isContracted v with
      | true => rfl
      | false =>
        have := (hsound r hr).single v hv hc
        rw [Round.step_eq_none hnone] at this
        cases this
    rw [hcontract, ← hpos r hr]
    exact (hsound r hr).ranked.perm_range hall
  · have := (Round.sound_start hg).removed_trace_perm
    rwa [List.filter_eq_self.2 fun v _ => by rw [show (Round.start g).graph = g from rfl, hg.live v]; rfl]
      at this
  · exact (hsound r hr).single v (by rw [hpos r hr]; exact hv) hlive
  · obtain ⟨-, -, -, -, -, -, -, huv, hwv, -, hu, hw⟩ := mem_shortcuts (hsound r hr).wf hs
    exact ⟨hu, hw, huv, hwv⟩

/-- A single node with a link to itself is contracted in one round and ranked `0`. -/
theorem contract_ranks_every_node_once_of_loop :
    let g₀ := (Contractor.empty.intern ⟨0.0, 0.0⟩).2.addLink 0 0 7 none 3
    g₀.Assembled ∧
      (∃ r ∈ (Round.start g₀).trace, r.step = none ∧ g₀.contract = (r.graph, r.rank)) ∧
      g₀.contract.2.toList.Perm (List.range g₀.pos.size) ∧
      ((Round.start g₀).trace.filterMap Round.removed).Perm (List.range g₀.pos.size) ∧
      (∀ r ∈ (Round.start g₀).trace, ∀ v < g₀.pos.size, r.graph.isContracted v = false →
        (r.queue.items.map Prod.snd).count v = 1) ∧
      (∀ r ∈ (Round.start g₀).trace, ∀ v, r.removed = some v → ∀ s ∈ r.graph.shortcuts v,
        r.graph.isContracted s.1 = false ∧ r.graph.isContracted s.2.1 = false ∧
          s.1 ≠ v ∧ s.2.1 ≠ v) := by
  intro g₀
  have hg : g₀.Assembled := .addLink 7 none 3 (.intern _ .empty) (by decide) (by decide)
  exact ⟨hg, contract_ranks_every_node_once hg⟩

end Contractor

end Wayfinder
