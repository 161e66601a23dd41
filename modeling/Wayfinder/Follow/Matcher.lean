import Wayfinder.Follow.Fix
import Wayfinder.Route.Basic
import Wayfinder.Settings

/-!
# Matching fixes to a route

A fix is matched to the segment of the route that scores best: the distance to the segment plus,
when the fix has a heading and heading penalties are on, a penalty growing linearly with the angle
between the fix's heading and the segment's. The search looks ahead of the last matched segment,
`matchLookahead` segments at a time, moving on while the best candidate lies on the last segment
of the window; when the best is still farther than the snap radius it scans the whole route. A
match within the snap radius is valid and becomes the new position on the route.

Candidates are segment numbers bounded by the route's segment count, so the search reads no
segment outside the route.
-/

namespace Wayfinder

/-- Number of segments searched at a time ahead of the last match. -/
def matchLookahead : Nat := 16

/-- A fix matched to a route. -/
structure Match where
  point : Point
  bearing : Float
  offset : Float
  distance : Float
  segment : Nat
  valid : Bool
deriving Inhabited

/-- The point shown to the user: the matched one if the match is valid and settings ask for it,
else the fix itself. -/
def Match.reported (m : Match) (fix : Fix) (s : Settings) : Point :=
  if m.valid && s.matchRoute then m.point else fix.point

/-- A turn ahead with the distance to it. -/
structure TurnAhead where
  turn : Turn
  distance : Float

/-- A candidate segment for a fix, among `n` segments. -/
structure Candidate (n : Nat) where
  segment : Fin n
  point : Point
  t : Float
  distance : Float
  score : Float

/-- Segment `i` as a candidate for `fix`: the fix projected onto it, scored by the distance plus,
when the fix has a heading and penalties are on, the heading penalty. -/
def candidateAt (r : Route) (fix : Fix) (s : Settings) (i : Fin r.segmentCount) :
    Candidate r.segmentCount :=
  let (a, b) := r.segment i
  let pr := fix.point.project a b
  let penalty := match fix.bearing with
    | some h =>
      if s.directionPenalty > 0.0 && !a.near b then
        s.directionPenalty * headingDelta h (a.bearing b) / 180.0
      else 0.0
    | none => 0.0
  ⟨i, pr.point, pr.t, pr.distance, pr.distance + penalty⟩

/-- The best of a search so far after `c` is seen: `c` if it scores strictly better. -/
def Candidate.pick {n : Nat} (best : Option (Candidate n)) (c : Candidate n) : Option (Candidate n) :=
  match best with
  | some b => if c.score < b.score then some c else best
  | none => some c

/-- The best-scoring segment among `segs`, the first of equally good ones. -/
def bestCandidate (r : Route) (fix : Fix) (s : Settings) (segs : List (Fin r.segmentCount)) :
    Option (Candidate r.segmentCount) :=
  segs.foldl (fun best i => Candidate.pick best (candidateAt r fix s i)) none

/-- Where a follower stands on a route: the last matched segment and the distance from the start,
once a fix has been matched. -/
structure Follower where
  lastSegment : Nat := 0
  offset : Option Float := none
deriving Inhabited

namespace Follower

/-- `(matched yet, distance from the start)`. -/
def progress (f : Follower) : Bool × Float :=
  match f.offset with
  | some d => (true, d)
  | none => (false, 0.0)

/-- Distance still to go, never negative. -/
def remaining (f : Follower) (r : Route) : Option Float :=
  f.offset.map fun d => Binary.maxNum (r.length - d) 0.0

/-- The next turn beyond the position, if it lies within `lookahead` metres. -/
def nextTurn (f : Follower) (r : Route) (lookahead : Float) : Option TurnAhead := do
  let d ← f.offset
  let t ← r.turns.find? fun t => t.offset > d
  let ahead : TurnAhead := ⟨t, t.offset - d⟩
  if ahead.distance ≤ lookahead then some ahead else none

/-- Extends the window ending at `upTo` while the best candidate sits on its last segment and the
next window does better. -/
def extend (r : Route) (fix : Fix) (s : Settings) (best : Candidate r.segmentCount) (upTo : Nat) :
    Candidate r.segmentCount × Nat :=
  if best.segment.val + 1 = upTo ∧ upTo < r.segmentCount then
    let next := min (upTo + matchLookahead) r.segmentCount
    match bestCandidate r fix s (r.window upTo next (Nat.min_le_right _ _)) with
    | some c => if c.score < best.score then extend r fix s c next else (best, upTo)
    | none => (best, upTo)
  else (best, upTo)
termination_by r.segmentCount - upTo
decreasing_by simp only [matchLookahead]; omega

/-- The segment where the search starts: the last one matched, within the route. -/
def windowStart (f : Follower) (r : Route) : Nat := min f.lastSegment (r.segmentCount - 1)

/-- The search ahead of the last match: the best candidate of the window at the last match,
extended while it sits on the window's last segment, with the end of the last window kept. -/
def ahead (f : Follower) (r : Route) (fix : Fix) (s : Settings) :
    Option (Candidate r.segmentCount × Nat) :=
  let upTo := min (f.windowStart r + matchLookahead) r.segmentCount
  (bestCandidate r fix s (r.window (f.windowStart r) upTo (Nat.min_le_right _ _))).map
    fun first => extend r fix s first upTo

/-- The candidate kept: the one found ahead, unless it lies beyond the snap radius and the search
ahead did not cover the whole route, when a strictly better candidate of the whole route wins. -/
def fallback (f : Follower) (r : Route) (fix : Fix) (s : Settings) (best : Candidate r.segmentCount)
    (upTo : Nat) : Candidate r.segmentCount :=
  if best.distance > s.snapRadius && (f.windowStart r > 0 || upTo < r.segmentCount) then
    match bestCandidate r fix s (r.window 0 r.segmentCount (Nat.le_refl _)) with
    | some c => if c.score < best.score then c else best
    | none => best
  else best

/-- Matches a fix, updating the position when the match is valid. -/
def locate (f : Follower) (r : Route) (fix : Fix) (s : Settings) : Option Match × Follower :=
  if r.segmentCount = 0 then (none, f)
  else
    match f.ahead r fix s with
    | none => (none, f)
    | some (best, upTo) =>
      let best := f.fallback r fix s best upTo
      let (a, b) := r.segment best.segment
      let segStart := r.offsetAt best.segment
      let segLen := r.offsetAt (best.segment + 1) - segStart
      let offset := segStart + segLen * best.t
      let valid := best.distance ≤ s.snapRadius
      let f := if valid then { lastSegment := best.segment, offset := some offset } else f
      (some ⟨best.point, a.bearing b, offset, best.distance, best.segment, valid⟩, f)

end Follower

end Wayfinder
