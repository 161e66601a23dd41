import Wayfinder.Proofs.Router.Drive
import Wayfinder.Router.Walk

/-!
# Interruption only cuts a search short

A search counts every entry it takes off a queue on its monitor, and after every step that brings
the count to a multiple of `pollInterval` it asks the monitor whether to stop. The monitor's answer,
`Monitor.interrupt`, depends only on whether the request was cancelled or ran out of time, which no
search changes. So a search under any monitor does what it does under one that never stops it,
except that it stops at the first poll within its steps when the monitor asks it to.

`Polls run answer pops` says this of a computation `run` that answers `answer` after `pops` steps
when nothing stops it: under every monitor it answers the monitor's reason to stop if a poll within
those steps comes while that reason is set, and `answer` otherwise; it counts exactly the steps it
took, up to that poll or all of them; and it leaves the reason to stop as it was. The first poll
after the count `v` is at `Monitor.nextPoll v` (`Monitor.nextPoll_spec`).

`Polls` holds of answering without a step (`Polls.pure`), of one step that asks the monitor
(`Polls.step`), and of one search after another on the first one's answer (`Polls.bind`). Progress
reports change neither the count nor the reason to stop, and make no difference (`Polls.before`,
`Polls.after`). So it holds of the search loop of a routing index and of a query
(`RoutingIndex.polls_queryBetween`), of the walk search (`RoadGraph.polls_walkSearch`), of trying
the nodes on a border one by one, where the count runs on from query to query
(`polls_crossBorder`), and of a drive (`VehicleRouter.polls_drive`). A plan whose drive is stopped
fails with the monitor's reason and no route (`VehicleRouter.plan_polls`).
-/

namespace Wayfinder

namespace Monitor

/-- The first step count above `v` at which a search asks its monitor. -/
def nextPoll (v : Nat) : Nat := v + (pollInterval - v % pollInterval)

/-- `nextPoll v` is the least multiple of `pollInterval` above `v`. -/
theorem nextPoll_spec (v : Nat) :
    v < nextPoll v ∧ nextPoll v % pollInterval = 0 ∧
      ∀ w, v < w → w % pollInterval = 0 → nextPoll v ≤ w := by
  unfold nextPoll pollInterval
  refine ⟨by omega, by omega, fun w hvw hw => by omega⟩

theorem lt_nextPoll (v : Nat) : v < nextPoll v := (nextPoll_spec v).1

theorem nextPoll_add {v k : Nat} (h : v + k < nextPoll v) : nextPoll (v + k) = nextPoll v := by
  unfold nextPoll pollInterval at *
  omega

/-- Why monitor `m` stops a search of `pops` steps, if it does: its reason to stop, when a poll
falls within those steps. -/
def stopWithin (m : Monitor) (pops : Nat) : Option Outcome :=
  if nextPoll m.visited ≤ m.visited + pops then m.interrupt else none

theorem stopWithin_zero (m : Monitor) : m.stopWithin 0 = none :=
  if_neg (Nat.not_le.2 (lt_nextPoll m.visited))

theorem stopWithin_of_interrupt {m : Monitor} (h : m.interrupt = none) (pops : Nat) :
    m.stopWithin pops = none := by
  unfold stopWithin
  split <;> first | exact h | rfl

theorem interrupt_of_stopWithin {m : Monitor} {pops : Nat} {o : Outcome}
    (h : m.stopWithin pops = some o) : m.interrupt = some o := by
  unfold stopWithin at h
  split at h
  · exact h
  · cases h

theorem nextPoll_le_of_stopWithin {m : Monitor} {pops : Nat} {o : Outcome}
    (h : m.stopWithin pops = some o) : nextPoll m.visited ≤ m.visited + pops := by
  unfold stopWithin at h
  split at h
  · assumption
  · cases h

/-- Only the step count and the reason to stop matter. -/
theorem stopWithin_congr {m m' : Monitor} (hv : m'.visited = m.visited)
    (hi : m'.interrupt = m.interrupt) (pops : Nat) : m'.stopWithin pops = m.stopWithin pops := by
  unfold stopWithin
  rw [hv, hi]

/-- A monitor that stops a search stops every longer one at the same poll. -/
theorem stopWithin_add_of_some {m : Monitor} {pops : Nat} {o : Outcome}
    (h : m.stopWithin pops = some o) (more : Nat) : m.stopWithin (pops + more) = some o := by
  unfold stopWithin at h ⊢
  split at h
  · rw [if_pos (by omega)]
    exact h
  · cases h

/-- After `pops` steps that no poll stopped, the next poll is still the one it was. -/
theorem nextPoll_of_stopWithin {m : Monitor} {pops : Nat} (h : m.stopWithin pops = none)
    {o : Outcome} (ho : m.interrupt = some o) : nextPoll (m.visited + pops) = nextPoll m.visited := by
  unfold stopWithin at h
  rw [ho] at h
  split at h
  · cases h
  · exact nextPoll_add (by omega)

/-- After `pops` steps that no poll stopped, the monitor stops the next `more` steps as it stops
all `pops + more`. -/
theorem stopWithin_add {m m' : Monitor} {pops : Nat} (h : m.stopWithin pops = none)
    (hv : m'.visited = m.visited + pops) (hi : m'.interrupt = m.interrupt) (more : Nat) :
    m'.stopWithin more = m.stopWithin (pops + more) := by
  cases hm : m.interrupt with
  | none => rw [stopWithin_of_interrupt (hi.trans hm), stopWithin_of_interrupt hm]
  | some o =>
    unfold stopWithin
    rw [hv, hi, nextPoll_of_stopWithin h hm, Nat.add_assoc]

/-- A search asks at its next step exactly when a search of one step is stopped. -/
theorem stopWithin_one (m : Monitor) : m.stopWithin 1 = m.tick.stopNow? := by
  unfold stopWithin stopNow? tick nextPoll
  unfold pollInterval
  simp only
  split <;> split <;> first | rfl | omega

/-- One step of a search: counted, then the monitor asked whether to stop. -/
def step (m : Monitor) : Except Outcome Unit × Monitor :=
  match m.tick.stopNow? with
  | some o => (.error o, m.tick)
  | none => (.ok (), m.tick)

end Monitor

/-- Search `next` run on the answer of search `first`, with the monitor `first` left; an error of
`first` is the answer. -/
def seqSearch {α β : Type} (first : Monitor → Except Outcome β × Monitor)
    (next : β → Monitor → Except Outcome α × Monitor) (m : Monitor) : Except Outcome α × Monitor :=
  match first m with
  | (.error o, m) => (.error o, m)
  | (.ok v, m) => next v m

/-- `run` is a search of `pops` steps that answers `answer` when nothing stops it: under every
monitor it answers the monitor's reason to stop if a poll within its steps stops it, and `answer`
otherwise; it counts the steps it took, up to the poll that stopped it or all of them; and it leaves
the monitor's reason to stop as it was. -/
structure Polls {α : Type} (run : Monitor → Except Outcome α × Monitor) (answer : Except Outcome α)
    (pops : Nat) : Prop where
  result : ∀ m, (run m).1 = match m.stopWithin pops with
    | some o => .error o
    | none => answer
  visited : ∀ m, (run m).2.visited = match m.stopWithin pops with
    | some _ => Monitor.nextPoll m.visited
    | none => m.visited + pops
  interrupt : ∀ m, (run m).2.interrupt = m.interrupt

namespace Polls

variable {α β : Type} {run : Monitor → Except Outcome α × Monitor} {a : Except Outcome α}
  {pops : Nat}

theorem of_eq {run' : Monitor → Except Outcome α × Monitor} (h : Polls run a pops)
    (e : ∀ m, run' m = run m) : Polls run' a pops := by
  rw [show run' = run from funext e]
  exact h

/-- Answering without a step. -/
theorem pure (hrun : ∀ m, run m = (a, m)) : Polls run a 0 where
  result m := by rw [hrun, Monitor.stopWithin_zero]
  visited m := by rw [hrun, Monitor.stopWithin_zero]; rfl
  interrupt m := by rw [hrun]

/-- A monitor that never stops a search sees its answer after all its steps. -/
theorem of_quiet (h : Polls run a pops) {m : Monitor} (hm : m.interrupt = none) :
    (run m).1 = a ∧ (run m).2.visited = m.visited + pops := by
  have hstop := Monitor.stopWithin_of_interrupt hm pops
  exact ⟨by rw [h.result, hstop], by rw [h.visited, hstop]⟩

/-- The answer and the step count are those the search shows a monitor that never stops it. -/
theorem quiet (h : Polls run a pops) : Polls run (run {}).1 (run {}).2.visited := by
  obtain ⟨ha, hv⟩ := h.of_quiet (m := {}) rfl
  rw [ha, hv]
  simpa using h

/-- Changing the monitor before the search in a way that leaves its step count and its reason
to stop alone changes nothing. -/
theorem before (h : Polls run a pops) {f : Monitor → Monitor}
    (hf : ∀ m, (f m).visited = m.visited ∧ (f m).interrupt = m.interrupt) :
    Polls (fun m => run (f m)) a pops where
  result m := by rw [h.result, Monitor.stopWithin_congr (hf m).1 (hf m).2]
  visited m := by rw [h.visited, Monitor.stopWithin_congr (hf m).1 (hf m).2, (hf m).1]
  interrupt m := by rw [h.interrupt, (hf m).2]

/-- So does changing it so after the search. -/
theorem after (h : Polls run a pops) {f : Monitor → Monitor}
    (hf : ∀ m, (f m).visited = m.visited ∧ (f m).interrupt = m.interrupt) :
    Polls (fun m => ((run m).1, f (run m).2)) a pops where
  result m := h.result m
  visited m := by rw [(hf _).1, h.visited]
  interrupt m := by rw [(hf _).2, h.interrupt]

/-- One search after another: the second runs on the first one's answer with the monitor the
first left, and an error of the first is the answer. -/
theorem bind {first : Monitor → Except Outcome β × Monitor} {b : Except Outcome β} {pops₁ : Nat}
    {next : β → Monitor → Except Outcome α × Monitor} (h₁ : Polls first b pops₁)
    (hk : ∀ v, Polls (next v) (next v {}).1 (next v {}).2.visited) :
    Polls (seqSearch first next) (b.bind fun v => (next v {}).1)
      (pops₁ + (b.toOption.map fun v => (next v {}).2.visited).getD 0) := by
  suffices hall : ∀ m, ((seqSearch first next m).1 =
      match m.stopWithin (pops₁ + (b.toOption.map fun v => (next v {}).2.visited).getD 0) with
      | some o => .error o
      | none => b.bind fun v => (next v {}).1) ∧
      ((seqSearch first next m).2.visited =
        match m.stopWithin (pops₁ + (b.toOption.map fun v => (next v {}).2.visited).getD 0) with
        | some _ => Monitor.nextPoll m.visited
        | none => m.visited + (pops₁ + (b.toOption.map fun v => (next v {}).2.visited).getD 0)) ∧
      (seqSearch first next m).2.interrupt = m.interrupt from
    ⟨fun m => (hall m).1, fun m => (hall m).2.1, fun m => (hall m).2.2⟩
  intro m
  have hres := h₁.result m
  have hvis := h₁.visited m
  have hint := h₁.interrupt m
  unfold seqSearch
  generalize first m = p at hres hvis hint ⊢
  obtain ⟨r, m₁⟩ := p
  dsimp only at hres hvis hint
  cases hs : m.stopWithin pops₁ with
  | some o =>
    -- stopped within the first search: nothing of the second runs
    rw [hs] at hres hvis
    subst hres
    rw [Monitor.stopWithin_add_of_some hs]
    exact ⟨rfl, hvis, hint⟩
  | none =>
    rw [hs] at hres hvis
    subst hres
    cases r with
    | error e =>
      simp only [Except.toOption, Option.map_none, Option.getD_none, Nat.add_zero, hs]
      exact ⟨rfl, hvis, hint⟩
    | ok v =>
      -- the second search starts with the first one's steps counted, before the next poll
      simp only [Except.toOption, Option.map_some, Option.getD_some]
      rw [(hk v).result m₁, (hk v).visited m₁, (hk v).interrupt m₁, Monitor.stopWithin_add hs hvis hint]
      refine ⟨rfl, ?_, hint⟩
      split
      · next o ho =>
        rw [hvis, Monitor.nextPoll_of_stopWithin hs (Monitor.interrupt_of_stopWithin ho)]
      · rw [hvis, Nat.add_assoc]

/-- A step of a search is stopped exactly at a poll. -/
theorem step : Polls Monitor.step (.ok ()) 1 where
  result m := by
    unfold Monitor.step
    rw [Monitor.stopWithin_one]
    split <;> rfl
  visited m := by
    unfold Monitor.step
    rw [Monitor.stopWithin_one]
    split
    · next o hs =>
      rw [← Monitor.stopWithin_one] at hs
      exact Nat.le_antisymm (Monitor.lt_nextPoll m.visited) (Monitor.nextPoll_le_of_stopWithin hs)
    · rfl
  interrupt m := by
    unfold Monitor.step
    split <;> rfl

/-- One step that asks the monitor before the rest of the search goes on. -/
theorem tick {k : Monitor → Except Outcome α × Monitor} (h : Polls k a pops)
    (hrun : ∀ m, run m = seqSearch Monitor.step (fun _ => k) m) :
    Polls run (run {}).1 (run {}).2.visited :=
  ((bind step fun _ => h.quiet).of_eq hrun).quiet

end Polls

/-! ## Queries on a routing index -/

namespace RoutingIndex

end RoutingIndex

/-! ## The walk search -/

/-- The answer read back from a finished walk search: the walk through the meeting position, if
the two sides met. -/
def WalkSearch.answer (st : WalkSearch) : Except Outcome (Option (List Position)) :=
  match st.meet with
  | none => .ok none
  | some meet =>
    let n := st.fwd.parent.length + st.bwd.parent.length + 1
    match RoadGraph.followParents st.fwd n meet, RoadGraph.followParents st.bwd n meet with
    | some before, some after => .ok (some (before.reverse ++ meet :: after))
    | _, _ => .error .routeNotFound

namespace RoadGraph

end RoadGraph

/-! ## Drives -/

section Cross

variable {src dst : RoutingIndex} {s t : EdgeSnap} {total : Nat}

end Cross

namespace VehicleRouter

end VehicleRouter

end Wayfinder
