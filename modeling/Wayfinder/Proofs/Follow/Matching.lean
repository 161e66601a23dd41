import Mathlib
import Wayfinder.Follow.Matcher
import Wayfinder.Proofs.Geo.Near

/-!
# Matching stays on the route and does not fall back

Matching a fix reads only segments of the route: windows are lists of segment numbers bounded by
the segment count, so every candidate names a segment of the route whatever position the follower
was left at by an earlier, longer route. A route with a segment always gets a match
(`ahead_isSome`), and a route without one leaves the follower alone.

The search ahead starts at the last matched segment, clamped into the route (`windowStart`), and
every window it extends into lies further on (`le_extend_segment`). When its best candidate is
within the snap radius the whole-route scan is skipped (`fallback_of_within`), so the match does
not go back behind the last matched segment. Only a valid match moves the follower.
-/

namespace Wayfinder

open Float.Model

/-! ## Comparing floats -/

/-- Comparing two unpacked floats the other way round gives the opposite answer. -/
theorem UnpackedFloat.compare_swap (x y : UnpackedFloat) :
    y.compare x = (x.compare y).map Ordering.swap := by
  rcases x with s | _ | s | ⟨s, m, e, hm⟩ <;> rcases y with t | _ | t | ⟨t, m', e', hm'⟩ <;>
    (try cases s) <;> (try cases t) <;> simp only [UnpackedFloat.compare, Option.map]
  -- only two finite floats of one sign compare by their exponents and mantissas
  all_goals first | rfl | simp only [Ordering.swap_then, ← Std.OrientedOrd.eq_swap]

theorem Float.lt_iff_unpack {x y : Float} : x < y ↔ x.toModel.unpack.lt y.toModel.unpack = true :=
  decide_eq_true_iff

/-- A float that is at most another is not greater than it; with a NaN neither holds. -/
theorem Float.not_lt_of_le {a b : Float} (h : a ≤ b) : ¬b < a := by
  rw [Float.le_iff_unpack, UnpackedFloat.le] at h
  rw [Float.lt_iff_unpack, UnpackedFloat.lt, UnpackedFloat.compare_swap]
  cases hc : a.toModel.unpack.compare b.toModel.unpack with
  | none => simp [hc] at h
  | some o => cases o <;> simp [hc] at h ⊢

namespace Route

theorem mem_window {r : Route} {lo hi : Nat} {h : hi ≤ r.segmentCount} {i : Fin r.segmentCount} :
    i ∈ r.window lo hi h ↔ lo ≤ i.val ∧ i.val < hi := by
  simp only [window, List.mem_pmap, List.mem_range'_1]
  constructor
  · rintro ⟨j, hj, rfl⟩
    show lo ≤ j ∧ j < hi
    omega
  · intro hi'
    exact ⟨i.val, by omega, rfl⟩

theorem window_ne_nil {r : Route} {lo hi : Nat} (h : hi ≤ r.segmentCount) (hlt : lo < hi) :
    r.window lo hi h ≠ [] := by
  simp only [window, ne_eq, List.pmap_eq_nil_iff, List.range'_eq_nil_iff]
  omega

end Route

/-! ## The best candidate of a window -/

section Best

variable {n : Nat}

/-- Seeing a candidate takes it or keeps a best already there. -/
theorem Candidate.pick_cases (best : Option (Candidate n)) (c : Candidate n) :
    Candidate.pick best c = some c ∨ (Candidate.pick best c = best ∧ best.isSome) := by
  unfold Candidate.pick
  cases best with
  | none => exact .inl rfl
  | some b =>
    by_cases hlt : c.score < b.score
    · exact .inl (if_pos hlt)
    · exact .inr ⟨if_neg hlt, rfl⟩

/-- By induction on the segments seen: the best of a search is its start or a candidate seen, and
a search that saw a segment has a best. -/
theorem foldl_pick {α : Type} (cand : α → Candidate n) (segs : List α) :
    ∀ init : Option (Candidate n),
      (∀ c, segs.foldl (fun best i => Candidate.pick best (cand i)) init = some c →
        init = some c ∨ ∃ i ∈ segs, c = cand i) ∧
      (init.isSome ∨ segs ≠ [] → (segs.foldl (fun best i => Candidate.pick best (cand i)) init).isSome) := by
  induction segs with
  | nil => simp
  | cons i rest ih =>
    intro init
    obtain ⟨hmem, hsome⟩ := ih (Candidate.pick init (cand i))
    refine ⟨fun c hc => ?_, fun _ => hsome (.inl ?_)⟩
    · rcases hmem c hc with h | ⟨j, hj, rfl⟩
      · rcases Candidate.pick_cases init (cand i) with h' | ⟨h', -⟩
        · rw [h'] at h
          exact .inr ⟨i, List.mem_cons_self, (Option.some.inj h).symm⟩
        · exact .inl (h' ▸ h)
      · exact .inr ⟨j, List.mem_cons_of_mem i hj, rfl⟩
    · rcases Candidate.pick_cases init (cand i) with h' | ⟨h', hs⟩
      · rw [h']; rfl
      · rw [h']; exact hs

end Best

@[simp] theorem segment_candidateAt (r : Route) (fix : Fix) (s : Settings) (i : Fin r.segmentCount) :
    (candidateAt r fix s i).segment = i := rfl

section Window

variable {r : Route} {fix : Fix} {s : Settings}

/-- The best candidate of a window is on a segment of the window. -/
theorem mem_of_bestCandidate {segs : List (Fin r.segmentCount)} {c : Candidate r.segmentCount}
    (h : bestCandidate r fix s segs = some c) : c.segment ∈ segs := by
  rcases (foldl_pick (candidateAt r fix s) segs none).1 c h with h | ⟨i, hi, rfl⟩
  · cases h
  · simpa using hi

theorem bestCandidate_isSome {segs : List (Fin r.segmentCount)} (h : segs ≠ []) :
    (bestCandidate r fix s segs).isSome :=
  (foldl_pick (candidateAt r fix s) segs none).2 (.inr h)

end Window

namespace Follower

variable {f : Follower} {r : Route} {fix : Fix} {s : Settings}

theorem windowStart_lt (f : Follower) (h : 0 < r.segmentCount) : f.windowStart r < r.segmentCount := by
  unfold windowStart
  omega

/-- By induction along the windows: extending never picks a segment before both the candidate it
starts from and the window it extends. -/
theorem le_extend_segment {lo : Nat} (best : Candidate r.segmentCount) (upTo : Nat)
    (hbest : lo ≤ best.segment.val) (hup : lo ≤ upTo) :
    lo ≤ (extend r fix s best upTo).1.segment.val := by
  fun_induction extend r fix s best upTo with
  | case1 best upTo hcond next c hc hlt ih =>
    -- the new best lies in the window from `upTo`, beyond `lo`
    have hmem := Route.mem_window.1 (mem_of_bestCandidate hc)
    exact ih (by omega) (by simp only [next, matchLookahead]; omega)
  | case2 => exact hbest
  | case3 => exact hbest
  | case4 => exact hbest

/-- A route with a segment always has a candidate ahead. -/
theorem ahead_isSome (f : Follower) (fix : Fix) (s : Settings) (h : 0 < r.segmentCount) :
    (f.ahead r fix s).isSome := by
  have hlt : f.windowStart r < min (f.windowStart r + matchLookahead) r.segmentCount := by
    have := f.windowStart_lt h
    simp only [matchLookahead]
    omega
  -- the first window holds the segment the search starts at
  have hsome : (bestCandidate r fix s (r.window (f.windowStart r) _ (Nat.min_le_right _ _))).isSome :=
    bestCandidate_isSome (Route.window_ne_nil _ hlt)
  simpa [ahead] using hsome

/-- The candidate found ahead is not behind the segment the search started at. -/
theorem windowStart_le_of_ahead {c : Candidate r.segmentCount} {upTo : Nat}
    (h : f.ahead r fix s = some (c, upTo)) : f.windowStart r ≤ c.segment.val := by
  unfold ahead at h
  obtain ⟨first, hfirst, hc⟩ := Option.map_eq_some_iff.1 h
  have hmem := Route.mem_window.1 (mem_of_bestCandidate hfirst)
  have hc' : (extend r fix s first _).1 = c := congrArg Prod.fst hc
  rw [← hc']
  exact le_extend_segment first _ hmem.1 (by simp only [matchLookahead]; omega)

/-- A candidate found ahead within the snap radius is kept: the whole route is not scanned. -/
theorem fallback_of_within {c : Candidate r.segmentCount} (upTo : Nat)
    (h : c.distance ≤ s.snapRadius) : f.fallback r fix s c upTo = c := by
  have hgt : ¬s.snapRadius < c.distance := Float.not_lt_of_le h
  simp [fallback, hgt]

/-- What matching answers once a candidate was found ahead: the match of the kept candidate, and
the follower moved to it exactly when the match is valid. -/
theorem locate_of_ahead (h0 : 0 < r.segmentCount) {c : Candidate r.segmentCount} {upTo : Nat}
    (h : f.ahead r fix s = some (c, upTo)) :
    ∃ m, f.locate r fix s =
        (some m, if m.valid then { lastSegment := m.segment, offset := some m.offset } else f) ∧
      m.segment = (f.fallback r fix s c upTo).segment.val ∧
      m.distance = (f.fallback r fix s c upTo).distance ∧
      m.valid = decide ((f.fallback r fix s c upTo).distance ≤ s.snapRadius) := by
  unfold locate
  rw [if_neg (Nat.pos_iff_ne_zero.1 h0), h]
  refine ⟨_, Prod.ext rfl ?_, rfl, rfl, rfl⟩
  -- the follower moves when the kept candidate is within the snap radius, which `valid` records
  simp only [decide_eq_true_eq]

/-- Matching a fix on a route with `n` segments: with none it answers nothing and changes nothing;
otherwise it answers a match on one of the route's segments, valid exactly within the snap radius,
moves the follower there only when valid, and, when the candidate found ahead of the last match is
within the snap radius, does not go back behind the last matched segment. -/
theorem locate_stays_on_route (f : Follower) (r : Route) (fix : Fix) (s : Settings) :
    (r.segmentCount = 0 → f.locate r fix s = (none, f)) ∧
    (0 < r.segmentCount → ∃ m, (f.locate r fix s).1 = some m ∧
      m.segment < r.segmentCount ∧
      (m.valid = true ↔ m.distance ≤ s.snapRadius) ∧
      (f.locate r fix s).2 =
        (if m.valid then { lastSegment := m.segment, offset := some m.offset } else f) ∧
      ∀ c upTo, f.ahead r fix s = some (c, upTo) → c.distance ≤ s.snapRadius →
        min f.lastSegment (r.segmentCount - 1) ≤ m.segment) := by
  refine ⟨fun h0 => by simp [locate, h0], fun hn => ?_⟩
  obtain ⟨⟨c, upTo⟩, hc⟩ := Option.isSome_iff_exists.1 (f.ahead_isSome fix s hn)
  obtain ⟨m, hloc, hseg, hdist, hvalid⟩ := locate_of_ahead hn hc
  refine ⟨m, by rw [hloc], hseg ▸ (f.fallback r fix s c upTo).segment.isLt, ?_, by rw [hloc], ?_⟩
  · rw [hvalid, hdist]
    exact decide_eq_true_iff
  · intro c' upTo' hc' hwithin
    rw [hc] at hc'
    obtain ⟨rfl, rfl⟩ := Prod.mk.inj (Option.some.inj hc')
    rw [hseg, fallback_of_within upTo hwithin]
    exact windowStart_le_of_ahead hc

/-- A follower left at segment 5 of a longer route still gets a match on a route of two points. -/
theorem locate_stays_on_route_after_longer_route :
    let r := Route.ofPoints .vehicle [⟨0.0, 0.0⟩, ⟨0.0, 0.001⟩] []
    let f : Follower := { lastSegment := 5 }
    let fix := Fix.ofPoint ⟨0.0, 0.0005⟩
    0 < r.segmentCount ∧ ∃ m, (f.locate r fix .vehicle).1 = some m ∧
      m.segment < r.segmentCount ∧
      (m.valid = true ↔ m.distance ≤ Settings.vehicle.snapRadius) ∧
      (f.locate r fix .vehicle).2 =
        (if m.valid then { lastSegment := m.segment, offset := some m.offset } else f) ∧
      ∀ c upTo, f.ahead r fix .vehicle = some (c, upTo) → c.distance ≤ Settings.vehicle.snapRadius →
        min f.lastSegment (r.segmentCount - 1) ≤ m.segment :=
  ⟨by decide, (locate_stays_on_route _ _ _ _).2 (by decide)⟩

end Follower

end Wayfinder
