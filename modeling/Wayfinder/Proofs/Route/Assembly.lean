import Mathlib.Data.List.Chain
import Wayfinder.Route.Assemble

/-!
# Routes assembled from legs

A search hands its route over as legs, stretches of one road feature each. Joining them
(`Route.assemble`) keeps a point only when it is not within the coordinate tolerance of the point
kept before it, drops legs shorter than the tolerance (the first one still gives the route its
first point), and announces a turn at the last point joined when a leg changes road and swings its
heading by more than `turnAngle` from the last leg kept. The last point always carries a turn.

Main statement (`assemble_well_formed`): the points of an assembled route never repeat the one
before them, start where the first leg starts and are all ends of legs; its turn indices never
decrease, lie within the points and end at the last point; every other turn sits at the last point
joined before a leg that turns; and every turn's offset is the distance run to its point.

The indices need not increase strictly. The tolerance is not transitive: a leg longer than the
tolerance can have both ends within it of the last point joined. Such a leg adds no point, so a turn
announced for it shares its index with the next turn, or with the last point's.
-/

namespace Wayfinder

/-- The last leg of `legs` not shorter than the coordinate tolerance. -/
def lastKept (legs : List Leg) : Option Leg :=
  (legs.filter fun l => !l.start.near l.stop).getLast?

/-- The state after joining `legs` from nothing. -/
def Joining.ofLegs (legs : List Leg) : Joining := legs.foldl Joining.add ⟨#[], #[], none⟩

@[simp] theorem Joining.ofLegs_nil : Joining.ofLegs [] = ⟨#[], #[], none⟩ := rfl

theorem Joining.ofLegs_concat (legs : List Leg) (leg : Leg) :
    Joining.ofLegs (legs ++ [leg]) = (Joining.ofLegs legs).add leg := by
  simp [Joining.ofLegs]

/-! ## Pushing a point -/

/-- Pushing keeps the points, or appends `p` when it is apart from the last point. -/
theorem toList_pushDistinct (ps : Array Point) (p : Point) :
    (pushDistinct ps p).toList =
      if ps.toList.getLast?.any (·.near p) then ps.toList else ps.toList ++ [p] := by
  unfold pushDistinct
  rw [← Array.getLast?_toList]
  split
  next q hq =>
    rw [hq]
    by_cases hnear : q.near p <;> simp [hnear]
  next hnone =>
    rw [hnone]
    simp

/-- Pushing never puts a point next to one it is near. -/
theorem apart_pushDistinct {ps : Array Point}
    (h : ps.toList.IsChain fun p q => p.near q = false) (p : Point) :
    (pushDistinct ps p).toList.IsChain fun p q => p.near q = false := by
  rw [toList_pushDistinct]
  split
  · exact h
  next hfar =>
    refine h.append (List.isChain_singleton p) fun q hq y hy => ?_
    rw [List.head?_cons, Option.mem_some_iff] at hy
    subst hy
    rw [Option.mem_def] at hq
    simpa [hq] using hfar

theorem mem_pushDistinct {ps : Array Point} {p q : Point} (hq : q ∈ (pushDistinct ps p).toList) :
    q ∈ ps.toList ∨ q = p := by
  rw [toList_pushDistinct] at hq
  split at hq
  · exact .inl hq
  · simpa using hq

theorem size_le_pushDistinct (ps : Array Point) (p : Point) : ps.size ≤ (pushDistinct ps p).size := by
  rw [← Array.length_toList, ← Array.length_toList, toList_pushDistinct]
  split <;> simp

theorem size_pushDistinct_pos (ps : Array Point) (p : Point) : 0 < (pushDistinct ps p).size := by
  rw [← Array.length_toList, toList_pushDistinct]
  split
  next hnear =>
    cases hlast : ps.toList.getLast? with
    | none => simp [hlast] at hnear
    | some q => exact List.length_pos_of_ne_nil (List.getLast?_isSome.1 (by simp [hlast]))
  · simp

/-- Pushing a point keeps the first point. -/
theorem pushDistinct_first {ps : Array Point} {p : Point} (h : ps[0]? = some p) (q : Point) :
    (pushDistinct ps q)[0]? = some p := by
  have hpos : 0 < ps.size := by
    rcases Nat.eq_zero_or_pos ps.size with h0 | h0
    · rw [Array.getElem?_eq_none (by omega)] at h
      cases h
    · exact h0
  unfold pushDistinct
  split
  · split
    · exact h
    · rw [Array.getElem?_push, if_neg (Nat.ne_of_lt hpos)]
      exact h
  · rw [Array.getElem?_push, if_neg (Nat.ne_of_lt hpos)]
    exact h

/-! ## Joining one leg -/

section Add

variable (s : Joining) {leg : Leg}

/-- A short leg only gives a route without points its first point. -/
theorem Joining.add_short (h : leg.start.near leg.stop = true) :
    s.add leg = { s with points := if s.points.isEmpty then s.points.push leg.start else s.points } := by
  unfold Joining.add
  rw [if_pos h]
  split <;> simp_all

theorem Joining.add_points_long (h : leg.start.near leg.stop = false) :
    (s.add leg).points = pushDistinct (pushDistinct s.points leg.start) leg.stop := by
  unfold Joining.add
  rw [if_neg (by simp [h])]

theorem Joining.add_last_long (h : leg.start.near leg.stop = false) :
    (s.add leg).last = some (leg.feature, leg.start.bearing leg.stop) := by
  unfold Joining.add
  rw [if_neg (by simp [h])]

/-- A longer leg announces a turn at the last point joined, or none; it announces one only when
there are points, and the last leg kept has another feature and a heading more than `turnAngle`
away. -/
theorem Joining.add_turns_long (h : leg.start.near leg.stop = false) :
    (s.add leg).turns = s.turns ∨
      ((s.add leg).turns = s.turns.push (s.points.size - 1) ∧ 0 < s.points.size ∧
        ∃ f hd, s.last = some (f, hd) ∧ f ≠ leg.feature ∧
          headingDelta hd (leg.start.bearing leg.stop) > turnAngle) := by
  unfold Joining.add
  rw [if_neg (by simp [h])]
  simp only
  split
  next f hd hlast =>
    by_cases hturn : (f != leg.feature && headingDelta hd (leg.start.bearing leg.stop) > turnAngle &&
        !s.points.isEmpty) = true
    · rw [if_pos hturn]
      simp only [Bool.and_eq_true, bne_iff_ne, ne_eq, decide_eq_true_eq, Bool.not_eq_true'] at hturn
      obtain ⟨⟨hf, hhd⟩, hsize⟩ := hturn
      exact .inr ⟨rfl, Nat.pos_of_ne_zero (by simpa using hsize), f, hd, hlast, hf, hhd⟩
    · rw [if_neg hturn]
      exact .inl rfl
  next => exact .inl rfl

/-- Joining a leg keeps the first point of a route begun. -/
theorem Joining.add_first {s : Joining} {p : Point} (h : s.points[0]? = some p) (leg : Leg) :
    (s.add leg).points[0]? = some p := by
  unfold Joining.add
  split
  · split
    next hempty =>
      rw [Array.isEmpty_iff] at hempty
      rw [hempty] at h
      cases h
    · exact h
  · exact pushDistinct_first (pushDistinct_first h _) _

/-- The first leg joined begins the route. -/
theorem Joining.add_empty_first (leg : Leg) :
    ((⟨#[], #[], none⟩ : Joining).add leg).points[0]? = some leg.start := by
  unfold Joining.add
  split
  · rfl
  · exact pushDistinct_first rfl _

end Add

/-! ## Joining many legs -/

theorem lastKept_concat (legs : List Leg) (leg : Leg) :
    lastKept (legs ++ [leg]) = if leg.start.near leg.stop then lastKept legs else some leg := by
  unfold lastKept
  rw [List.filter_append]
  by_cases h : leg.start.near leg.stop <;> simp [h]

/-- The last leg kept is one that is not short, with only short legs after it. -/
theorem lastKept_eq_some {legs : List Leg} {prev : Leg} (h : lastKept legs = some prev) :
    ∃ before mid, legs = before ++ prev :: mid ∧ prev.start.near prev.stop = false ∧
      ∀ l ∈ mid, l.start.near l.stop = true := by
  induction legs using List.reverseRecOn with
  | nil => cases h
  | append_singleton legs leg ih =>
    rw [lastKept_concat] at h
    split at h
    next hshort =>
      obtain ⟨before, mid, rfl, hprev, hmid⟩ := ih h
      refine ⟨before, mid ++ [leg], by simp, hprev, fun l hl => ?_⟩
      rcases List.mem_append.1 hl with hl | hl
      · exact hmid l hl
      · rw [List.mem_singleton.1 hl]
        exact hshort
    next hlong =>
      cases h
      exact ⟨legs, [], rfl, by simpa using hlong, fun _ h => by cases h⟩

/-- By induction on the legs: no point kept is near the one before it. -/
theorem apart_ofLegs (legs : List Leg) :
    (Joining.ofLegs legs).points.toList.IsChain fun p q => p.near q = false := by
  induction legs using List.reverseRecOn with
  | nil => exact List.IsChain.nil
  | append_singleton legs leg ih =>
    rw [Joining.ofLegs_concat]
    cases h : leg.start.near leg.stop
    · rw [Joining.add_points_long _ h]
      exact apart_pushDistinct (apart_pushDistinct ih _) _
    · rw [Joining.add_short _ h]
      simp only
      split
      next hempty =>
        rw [Array.isEmpty_iff.1 hempty]
        exact List.isChain_singleton _
      · exact ih

/-- By induction on the legs: every point kept is an end of a leg. -/
theorem ends_ofLegs (legs : List Leg) :
    ∀ p ∈ (Joining.ofLegs legs).points.toList, ∃ l ∈ legs, p = l.start ∨ p = l.stop := by
  induction legs using List.reverseRecOn with
  | nil => intro p hp; cases hp
  | append_singleton legs leg ih =>
    intro p hp
    have hold : p ∈ (Joining.ofLegs legs).points.toList → ∃ l ∈ legs ++ [leg], p = l.start ∨ p = l.stop :=
      fun hp => (ih p hp).imp fun l ⟨hl, he⟩ => ⟨List.mem_append_left _ hl, he⟩
    have hnew : p = leg.start ∨ p = leg.stop → ∃ l ∈ legs ++ [leg], p = l.start ∨ p = l.stop :=
      fun he => ⟨leg, by simp, he⟩
    rw [Joining.ofLegs_concat] at hp
    cases h : leg.start.near leg.stop
    · rw [Joining.add_points_long _ h] at hp
      rcases mem_pushDistinct hp with hp | rfl
      · rcases mem_pushDistinct hp with hp | rfl
        · exact hold hp
        · exact hnew (.inl rfl)
      · exact hnew (.inr rfl)
    · rw [Joining.add_short _ h] at hp
      simp only at hp
      split at hp
      · rw [Array.toList_push, List.mem_append, List.mem_singleton] at hp
        rcases hp with hp | hp
        · exact hold hp
        · exact hnew (.inl hp)
      · exact hold hp

/-- Joining legs never loses a point already joined from the count. -/
theorem size_le_add (s : Joining) (leg : Leg) : s.points.size ≤ (s.add leg).points.size := by
  cases h : leg.start.near leg.stop
  · rw [Joining.add_points_long _ h]
    exact Nat.le_trans (size_le_pushDistinct _ _) (size_le_pushDistinct _ _)
  · rw [Joining.add_short _ h]
    simp only
    split <;> simp

/-- By induction on the legs: once a leg is joined there is a point. -/
theorem size_ofLegs_pos {legs : List Leg} (h : legs ≠ []) : 0 < (Joining.ofLegs legs).points.size := by
  induction legs using List.reverseRecOn with
  | nil => exact absurd rfl h
  | append_singleton legs leg ih =>
    rw [Joining.ofLegs_concat]
    cases hshort : leg.start.near leg.stop
    · rw [Joining.add_points_long _ hshort]
      exact size_pushDistinct_pos _ _
    · rw [Joining.add_short _ hshort]
      simp only
      split
      · simp
      next hnonempty =>
        cases legs with
        | nil => exact absurd rfl hnonempty
        | cons l rest => exact ih (List.cons_ne_nil l rest)

/-- By induction on the legs: the state remembers the feature and heading of the last leg kept. -/
theorem last_ofLegs (legs : List Leg) :
    (Joining.ofLegs legs).last = (lastKept legs).map fun l => (l.feature, l.start.bearing l.stop) := by
  induction legs using List.reverseRecOn with
  | nil => rfl
  | append_singleton legs leg ih =>
    rw [Joining.ofLegs_concat, lastKept_concat]
    cases h : leg.start.near leg.stop
    · rw [Joining.add_last_long _ h]
      rfl
    · rw [Joining.add_short _ h]
      exact ih

/-- Indices that never decrease and lie below `n > 0` still do with `n - 1` after them. -/
theorem sorted_concat_last {l : List Nat} {n : Nat} (hsorted : l.Pairwise (· ≤ ·))
    (hbound : ∀ i ∈ l, i < n) (hn : 0 < n) :
    (l ++ [n - 1]).Pairwise (· ≤ ·) ∧ ∀ i ∈ l ++ [n - 1], i < n := by
  refine ⟨List.pairwise_append.2 ⟨hsorted, List.pairwise_singleton _ _, fun i hi j hj => ?_⟩,
    fun i hi => ?_⟩
  · rw [List.mem_singleton.1 hj]
    have := hbound i hi
    omega
  · rcases List.mem_append.1 hi with hi | hi
    · exact hbound i hi
    · rw [List.mem_singleton.1 hi]
      omega

/-- By induction on the legs: turn indices never decrease and stay within the points. -/
theorem turns_ofLegs_sorted (legs : List Leg) :
    (Joining.ofLegs legs).turns.toList.Pairwise (· ≤ ·) ∧
      ∀ i ∈ (Joining.ofLegs legs).turns.toList, i < (Joining.ofLegs legs).points.size := by
  induction legs using List.reverseRecOn with
  | nil => exact ⟨List.Pairwise.nil, fun _ h => by cases h⟩
  | append_singleton legs leg ih =>
    obtain ⟨hsorted, hbound⟩ := ih
    have hgrow := size_le_add (Joining.ofLegs legs) leg
    rw [Joining.ofLegs_concat]
    cases h : leg.start.near leg.stop
    · rcases Joining.add_turns_long (Joining.ofLegs legs) h with hsame | ⟨hpush, hpos, -⟩
      · rw [hsame]
        exact ⟨hsorted, fun i hi => Nat.lt_of_lt_of_le (hbound i hi) hgrow⟩
      · -- The new turn is at the last point joined, after every earlier turn.
        rw [hpush, Array.toList_push]
        obtain ⟨hsorted', hbound'⟩ := sorted_concat_last hsorted hbound hpos
        exact ⟨hsorted', fun i hi => Nat.lt_of_lt_of_le (hbound' i hi) hgrow⟩
    · rw [Joining.add_short _ h]
      simp only
      refine ⟨hsorted, fun i hi => Nat.lt_of_lt_of_le (hbound i hi) ?_⟩
      split <;> simp

/-- By induction on the legs: the first point joined is where the first leg starts. -/
theorem first_ofLegs (legs : List Leg) :
    (Joining.ofLegs legs).points[0]? = legs.head?.map Leg.start := by
  induction legs using List.reverseRecOn with
  | nil => rfl
  | append_singleton legs leg ih =>
    rw [Joining.ofLegs_concat]
    cases legs with
    | nil => exact Joining.add_empty_first leg
    | cons l rest => exact Joining.add_first ih leg

/-- Turn index `i` sits at the last point joined before a leg of `legs` that is not short, changes
road and swings its heading by more than `turnAngle` from the last leg kept before it. -/
def TurnAt (legs : List Leg) (i : Nat) : Prop :=
  ∃ before prev mid leg after, legs = before ++ prev :: mid ++ leg :: after ∧
    prev.start.near prev.stop = false ∧ (∀ l ∈ mid, l.start.near l.stop = true) ∧
    leg.start.near leg.stop = false ∧ prev.feature ≠ leg.feature ∧
    headingDelta (prev.start.bearing prev.stop) (leg.start.bearing leg.stop) > turnAngle ∧
    i + 1 = (Joining.ofLegs (before ++ prev :: mid)).points.size

theorem TurnAt.append {legs : List Leg} {i : Nat} (h : TurnAt legs i) (more : List Leg) :
    TurnAt (legs ++ more) i := by
  obtain ⟨before, prev, mid, leg, after, rfl, hprev, hmid, hleg, hf, hhd, hi⟩ := h
  exact ⟨before, prev, mid, leg, after ++ more, by simp, hprev, hmid, hleg, hf, hhd, hi⟩

/-- By induction on the legs: every turn announced sits where a leg turns. -/
theorem turnAt_ofLegs (legs : List Leg) : ∀ i ∈ (Joining.ofLegs legs).turns.toList, TurnAt legs i := by
  induction legs using List.reverseRecOn with
  | nil => intro i hi; cases hi
  | append_singleton legs leg ih =>
    intro i hi
    rw [Joining.ofLegs_concat] at hi
    cases h : leg.start.near leg.stop
    · rcases Joining.add_turns_long (Joining.ofLegs legs) h with
        hsame | ⟨hpush, hpos, f, hd, hlast, hf, hhd⟩
      · rw [hsame] at hi
        exact (ih i hi).append [leg]
      · rw [hpush, Array.toList_push, List.mem_append, List.mem_singleton] at hi
        rcases hi with hi | rfl
        · exact (ih i hi).append [leg]
        · -- The new turn turns from the last leg kept so far, and sits at the last point joined.
          rw [last_ofLegs] at hlast
          obtain ⟨prev, hprev, hfh⟩ := Option.map_eq_some_iff.1 hlast
          cases hfh
          obtain ⟨before, mid, rfl, hlong, hmid⟩ := lastKept_eq_some hprev
          exact ⟨before, prev, mid, leg, [], by simp, hlong, hmid, h, hf, hhd, by omega⟩
    · rw [Joining.add_short _ h] at hi
      exact (ih i hi).append [leg]

/-! ## Assembled routes -/

section Assembled

variable (mode : Mode) (legs : List Leg)

theorem Route.assemble_points : (Route.assemble mode legs).points = (Joining.ofLegs legs).points := by
  simp [Route.assemble, Route.ofPoints, Joining.ofLegs]

/-- A route assembled from legs starts where its first leg starts. -/
theorem Route.assemble_first (leg : Leg) (legs : List Leg) :
    (Route.assemble mode (leg :: legs)).points[0]? = some leg.start := by
  rw [Route.assemble_points, first_ofLegs]
  rfl

/-- The turns of an assembled route: those announced while joining and then one at the last point,
if there is one, each with the distance run to its point. -/
theorem Route.assemble_turns :
    (Route.assemble mode legs).turns =
      ((Joining.ofLegs legs).turns.toList ++
          if (Joining.ofLegs legs).points.isEmpty then [] else [(Joining.ofLegs legs).points.size - 1]).map
        fun i => ⟨i, (Route.assemble mode legs).cumulative.getD i 0.0⟩ := by
  obtain ⟨hsorted, hbound⟩ := turns_ofLegs_sorted legs
  simp only [Route.assemble, Route.ofPoints]
  rw [show List.foldl Joining.add ⟨#[], #[], none⟩ legs = Joining.ofLegs legs from rfl]
  -- Every turn index lies within the points, so none is filtered out.
  rw [List.filter_eq_self.2]
  · split <;> simp
  · intro i hi
    split at hi
    · simpa using hbound i hi
    next hne =>
      rw [Array.toList_push] at hi
      have hpos : 0 < (Joining.ofLegs legs).points.size := by
        simpa [Array.isEmpty_iff_size_eq_zero, Nat.pos_iff_ne_zero] using hne
      simpa using (sorted_concat_last hsorted hbound hpos).2 i hi

/-- The turn indices of an assembled route: those announced while joining, then the last
point's. -/
theorem Route.assemble_indices :
    (Route.assemble mode legs).turns.map Turn.index = (Joining.ofLegs legs).turns.toList ++
      if (Joining.ofLegs legs).points.isEmpty then [] else [(Joining.ofLegs legs).points.size - 1] := by
  rw [Route.assemble_turns, List.map_map]
  exact List.map_id' _

/-- The turn indices of an assembled route never decrease and lie within its points: the last
point's comes after every turn announced while joining. -/
theorem Route.assemble_indices_sorted :
    ((Route.assemble mode legs).turns.map Turn.index).Pairwise (· ≤ ·) ∧
      ∀ i ∈ (Route.assemble mode legs).turns.map Turn.index,
        i < (Route.assemble mode legs).points.size := by
  obtain ⟨hsorted, hbound⟩ := turns_ofLegs_sorted legs
  rw [Route.assemble_indices, Route.assemble_points]
  split
  · simpa using And.intro hsorted hbound
  next hne =>
    exact sorted_concat_last hsorted hbound
      (by simpa [Array.isEmpty_iff_size_eq_zero, Nat.pos_iff_ne_zero] using hne)

/-- A route with points has its last turn at its last point. -/
theorem Route.assemble_last_index (hpos : 0 < (Route.assemble mode legs).points.size) :
    ((Route.assemble mode legs).turns.map Turn.index).getLast? =
      some ((Route.assemble mode legs).points.size - 1) := by
  rw [Route.assemble_indices, Route.assemble_points]
  rw [Route.assemble_points] at hpos
  have hne : (Joining.ofLegs legs).points.isEmpty = false := by
    simpa [Array.isEmpty_iff_size_eq_zero, Nat.pos_iff_ne_zero] using hpos
  rw [hne]
  simp

/-- Every turn but the last point's sits where a leg turns. -/
theorem Route.assemble_turnAt :
    ∀ t ∈ (Route.assemble mode legs).turns.dropLast, TurnAt legs t.index := by
  intro t ht
  rw [Route.assemble_turns] at ht
  split at ht
  next hempty =>
    -- Without points no turn was announced either.
    have hnone : (Joining.ofLegs legs).turns.toList = [] :=
      List.eq_nil_iff_forall_not_mem.2 fun i hi => by
        have := (turns_ofLegs_sorted legs).2 i hi
        simp [Array.isEmpty_iff_size_eq_zero.1 hempty] at this
    rw [hnone] at ht
    cases ht
  · rw [List.map_append, List.map_singleton, List.dropLast_concat] at ht
    obtain ⟨i, hi, rfl⟩ := List.mem_map.1 ht
    exact turnAt_ofLegs legs i hi

/-- Every turn's offset is the distance run to its point. -/
theorem Route.assemble_offset :
    ∀ t ∈ (Route.assemble mode legs).turns,
      t.offset = (Route.assemble mode legs).cumulative.getD t.index 0.0 := by
  intro t ht
  rw [Route.assemble_turns] at ht
  obtain ⟨i, -, rfl⟩ := List.mem_map.1 ht
  rfl

end Assembled

/-- An assembled route is well formed. Its points never repeat the point before them, start where
the first leg starts, and are all ends of legs. Its turn indices never decrease and lie within the
points, the last one at the last point whenever there are points; every other turn sits at the last
point joined before a leg that turns (`TurnAt`); and every turn's offset is the distance run to its
point. -/
theorem assemble_well_formed (mode : Mode) (legs : List Leg) :
    let r := Route.assemble mode legs
    (r.points.toList.IsChain fun p q => p.near q = false) ∧
    r.points[0]? = legs.head?.map Leg.start ∧
    (∀ p ∈ r.points.toList, ∃ l ∈ legs, p = l.start ∨ p = l.stop) ∧
    (r.turns.map Turn.index).Pairwise (· ≤ ·) ∧
    (∀ t ∈ r.turns, t.index < r.points.size) ∧
    (0 < r.points.size → (r.turns.map Turn.index).getLast? = some (r.points.size - 1)) ∧
    (∀ t ∈ r.turns.dropLast, TurnAt legs t.index) ∧
    (∀ t ∈ r.turns, t.offset = r.cumulative.getD t.index 0.0) := by
  intro r
  have hpoints : r.points = (Joining.ofLegs legs).points := Route.assemble_points mode legs
  obtain ⟨hsorted, hbound⟩ := Route.assemble_indices_sorted mode legs
  exact ⟨hpoints ▸ apart_ofLegs legs, hpoints ▸ first_ofLegs legs, hpoints ▸ ends_ofLegs legs,
    hsorted, fun t ht => hbound t.index (List.mem_map_of_mem ht),
    Route.assemble_last_index mode legs, Route.assemble_turnAt mode legs,
    Route.assemble_offset mode legs⟩

end Wayfinder
