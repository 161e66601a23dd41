import Wayfinder.Proofs.Numeric.Binary32
import Wayfinder.Router.Monitor

/-!
# Progress reports rise

A monitor passes a progress report on when, clamped to `[0, 100]`, it lies at least one point above
the last one passed on, or it is the first to reach 100 (`passes`); before the first report the last
one counts as `-1`. `forwarded last ps` lists what is passed on of the reports `ps`, and a monitor
with someone listening passes on exactly that (`reports_foldl_report`).

A report that passes lies above the last one passed on (`passes_spec`): after `-1` because
`-1 + 1 = 0`, after a percentage because adding one to a float below `2 ^ 24` goes up
(`Float32.lt_add_one`), and a first report of 100 lies above one below 100. So what is passed on rises
strictly, is made of percentages and holds no NaN, holds at most one value equal to 100, and holds one
as soon as some report reaches 100 (`report_forwards_rising_percentages`).
-/

namespace Wayfinder

namespace Monitor

/-- Whether the clamped report `c` is passed on after `last`: it is at least one point above the
last one passed on, or it is the first to reach 100. -/
def passes (last c : Float32) : Bool := c ≥ last + 1.0 || (c ≥ 100.0 && last < 100.0)

/-- The percentages passed on, in order, when the reports `ps` arrive after `last` was passed on. -/
def forwarded (last : Float32) : List Float32 → List Float32
  | [] => []
  | p :: ps =>
    if passes last (clampPercent p) then clampPercent p :: forwarded (clampPercent p) ps
    else forwarded last ps

theorem report_of_listening {m : Monitor} (h : m.listening = true) (p : Float32) :
    m.report p = if passes m.last (clampPercent p) then
      { m with last := clampPercent p, reports := m.reports.push (clampPercent p) } else m := by
  simp only [report, h, Bool.not_true, Bool.false_eq_true, if_false, passes]

/-- A monitor with someone listening passes on what `forwarded` lists from its last report. -/
theorem reports_foldl_report {m : Monitor} (h : m.listening = true) (ps : List Float32) :
    (ps.foldl report m).reports.toList = m.reports.toList ++ forwarded m.last ps := by
  induction ps generalizing m with
  | nil => simp [forwarded]
  | cons p ps ih =>
    rw [List.foldl_cons, report_of_listening h, forwarded]
    split
    · rw [ih (m := { m with last := clampPercent p, reports := m.reports.push (clampPercent p) }) h]
      simp
    · exact ih h

example : ([0.0, 0.5, 1.0, 1.2, 0.3, 7.0, 150.0, 100.0].foldl report {}).reports.toList =
    [0.0, 1.0, 7.0, 100.0] := by
  decide

/-- A clamped percentage is NaN, or lies between 0 and 100. -/
theorem clampPercent_nan_or_mem (p : Float32) :
    (clampPercent p).isNaN = true ∨ 0.0 ≤ clampPercent p ∧ clampPercent p ≤ 100.0 := by
  unfold clampPercent
  split_ifs with hneg hbig
  · exact .inr ⟨by decide, by decide⟩
  · exact .inr ⟨by decide, by decide⟩
  · -- neither below 0 nor above 100: unless it is NaN, it lies between them
    cases hp : p.isNaN
    · exact .inr ⟨Float32.le_of_not_lt rfl hp hneg, Float32.le_of_not_lt hp rfl hbig⟩
    · exact .inl rfl

/-- A report of 100 or more is clamped to a value equal to 100. -/
theorem clampPercent_eq_full {p : Float32} (h : 100.0 ≤ p) : (clampPercent p == 100.0) = true := by
  unfold clampPercent
  split_ifs with hneg hbig
  · exact absurd hneg (Float32.not_lt_of_le (Float32.le_of_lt
      (Float32.lt_of_lt_of_le (by decide : (0.0 : Float32) < 100.0) h)))
  · rfl
  · -- at least 100 and not above it
    exact Float32.beq_iff_le_le.2 ⟨Float32.le_of_not_lt (Float32.not_nan_of_le h).2 rfl hbig, h⟩

/-- What the last percentage passed on can be: none yet (`-1`), or a percentage. -/
def Baseline (last : Float32) : Prop := last = -1.0 ∨ 0.0 ≤ last ∧ last ≤ 100.0

/-- A report that passes lies above the last one passed on, and is a percentage. -/
theorem passes_spec {last p : Float32} (hb : Baseline last)
    (hp : passes last (clampPercent p) = true) :
    last < clampPercent p ∧ 0.0 ≤ clampPercent p ∧ clampPercent p ≤ 100.0 := by
  have hc := clampPercent_nan_or_mem p
  generalize clampPercent p = c at hp hc ⊢
  simp only [passes, Bool.or_eq_true, Bool.and_eq_true, decide_eq_true_eq] at hp
  -- a report that passed a comparison is not NaN
  have hnan : c.isNaN = false := by
    rcases hp with h | ⟨h, -⟩ <;> exact (Float32.not_nan_of_le h).2
  have hmem : 0.0 ≤ c ∧ c ≤ 100.0 := hc.resolve_left (by rw [hnan]; decide)
  refine ⟨?_, hmem⟩
  rcases hp with hstep | ⟨hfull, hlast⟩
  · rcases hb with rfl | ⟨h0, h100⟩
    · -- the first report passed on: `-1 + 1` is `0`
      rw [show (-1.0 : Float32) + 1.0 = 0.0 by decide] at hstep
      exact Float32.lt_of_lt_of_le (by decide) hstep
    · -- a percentage lies below `2 ^ 24`, where adding one goes up
      have hsmall : last < 16777216.0 := Float32.lt_of_le_of_lt h100 (by decide)
      exact Float32.lt_of_lt_of_le (Float32.lt_add_one h0 hsmall) hstep
  · exact Float32.lt_of_lt_of_le hlast hfull

/-- By induction on the reports, with the last one passed on rising: every percentage passed on lies
above all those before it, and above the one passed on before the reports. -/
theorem forwarded_rises {last : Float32} (hb : Baseline last) (ps : List Float32) :
    (forwarded last ps).Pairwise (· < ·) ∧
      ∀ x ∈ forwarded last ps, last < x ∧ 0.0 ≤ x ∧ x ≤ 100.0 := by
  induction ps generalizing last with
  | nil => exact ⟨List.Pairwise.nil, fun _ h => nomatch h⟩
  | cons p ps ih =>
    rw [forwarded]
    split_ifs with hp
    · obtain ⟨hlt, h0, h100⟩ := passes_spec hb hp
      obtain ⟨hsorted, hall⟩ := ih (.inr ⟨h0, h100⟩)
      refine ⟨List.pairwise_cons.2 ⟨fun x hx => (hall x hx).1, hsorted⟩, fun x hx => ?_⟩
      rcases List.mem_cons.1 hx with rfl | hx
      · exact ⟨hlt, h0, h100⟩
      · obtain ⟨hcx, hx0, hx100⟩ := hall x hx
        exact ⟨Float32.lt_trans hlt hcx, hx0, hx100⟩
    · exact ih hb

/-- In a strictly rising list of floats at most one equals 100. -/
theorem countP_full_le_one {l : List Float32} (h : l.Pairwise (· < ·)) :
    l.countP (· == 100.0) ≤ 1 := by
  induction l with
  | nil => exact Nat.zero_le _
  | cons a l ih =>
    obtain ⟨hafter, hrest⟩ := List.pairwise_cons.1 h
    rw [List.countP_cons]
    split_ifs with ha
    · -- everything after a value equal to 100 lies above it, so none equals 100
      have hnone : l.countP (· == 100.0) = 0 := List.countP_eq_zero.2 fun y hy hy100 => by
        have hay := Float32.lt_iff_place.1 (hafter y hy)
        rw [(Float32.beq_iff_place.1 ha).2.2, (Float32.beq_iff_place.1 hy100).2.2] at hay
        exact lt_irrefl _ hay.2.2
      omega
    · simpa using ih hrest

/-- A report of 100 or more is answered by a value equal to 100 passed on, then or before. -/
theorem forwarded_reaches_full {last : Float32} (hb : Baseline last) {ps : List Float32}
    (h : ∃ p ∈ ps, 100.0 ≤ p) :
    (last == 100.0) = true ∨ ∃ x ∈ forwarded last ps, (x == 100.0) = true := by
  induction ps generalizing last with
  | nil => obtain ⟨_, hp, _⟩ := h; cases hp
  | cons p ps ih =>
    obtain ⟨q, hq, hq100⟩ := h
    rw [forwarded]
    split_ifs with hpass
    · obtain ⟨-, h0, h100⟩ := passes_spec hb hpass
      rcases List.mem_cons.1 hq with rfl | hq
      · exact .inr ⟨_, List.mem_cons_self, clampPercent_eq_full hq100⟩
      · rcases ih (.inr ⟨h0, h100⟩) ⟨q, hq, hq100⟩ with hc | ⟨x, hx, hx100⟩
        · exact .inr ⟨_, List.mem_cons_self, hc⟩
        · exact .inr ⟨x, List.mem_cons_of_mem _ hx, hx100⟩
    · rcases List.mem_cons.1 hq with rfl | hq
      · -- a full report that does not pass finds the last one passed on at 100 already
        left
        have hfull := Float32.beq_iff_le_le.1 (clampPercent_eq_full hq100)
        simp only [passes, Bool.or_eq_true, Bool.and_eq_true, decide_eq_true_eq, not_or,
          not_and] at hpass
        have hnotlt : ¬last < 100.0 := hpass.2 hfull.2
        rcases hb with rfl | ⟨-, h100⟩
        · exact absurd (by decide) hnotlt
        · exact Float32.beq_iff_le_le.2
            ⟨h100, Float32.le_of_not_lt rfl (Float32.not_nan_of_le h100).1 hnotlt⟩
      · exact ih hb ⟨q, hq, hq100⟩

/-- Reports to a monitor with someone listening and none passed on yet: what it passes on is
`forwarded` from `-1`, each value above all before it, all percentages and none NaN, at most one
equal to 100, and one equal to 100 as soon as some report reaches 100. -/
theorem report_forwards_rising_percentages (m : Monitor) (hl : m.listening = true)
    (hlast : m.last = -1.0) (ps : List Float32) :
    (ps.foldl report m).reports.toList = m.reports.toList ++ forwarded (-1.0) ps ∧
      (forwarded (-1.0) ps).Pairwise (· < ·) ∧
      (∀ x ∈ forwarded (-1.0) ps, 0.0 ≤ x ∧ x ≤ 100.0 ∧ x.isNaN = false) ∧
      (forwarded (-1.0) ps).countP (· == 100.0) ≤ 1 ∧
      ((∃ p ∈ ps, 100.0 ≤ p) → ∃ x ∈ forwarded (-1.0) ps, (x == 100.0) = true) := by
  have hb : Baseline (-1.0) := .inl rfl
  obtain ⟨hsorted, hall⟩ := forwarded_rises hb ps
  refine ⟨hlast ▸ reports_foldl_report hl ps, hsorted, fun x hx => ?_, countP_full_le_one hsorted,
    fun h => (forwarded_reaches_full hb h).resolve_left (by decide)⟩
  obtain ⟨-, h0, h100⟩ := hall x hx
  exact ⟨h0, h100, (Float32.not_nan_of_le h0).2⟩

/-- The reports of a search that overshoots, on a fresh monitor. -/
theorem report_forwards_rising_percentages_of_overshoot :
    let ps : List Float32 := [0.0, 0.5, 1.0, 1.2, 0.3, 7.0, 150.0, 100.0]
    ({} : Monitor).listening = true ∧ ({} : Monitor).last = -1.0 ∧
      ((ps.foldl report {}).reports.toList = ({} : Monitor).reports.toList ++ forwarded (-1.0) ps ∧
        (forwarded (-1.0) ps).Pairwise (· < ·) ∧
        (∀ x ∈ forwarded (-1.0) ps, 0.0 ≤ x ∧ x ≤ 100.0 ∧ x.isNaN = false) ∧
        (forwarded (-1.0) ps).countP (· == 100.0) ≤ 1 ∧
        ((∃ p ∈ ps, 100.0 ≤ p) → ∃ x ∈ forwarded (-1.0) ps, (x == 100.0) = true)) :=
  ⟨rfl, rfl, report_forwards_rising_percentages {} rfl rfl _⟩

end Monitor

end Wayfinder
