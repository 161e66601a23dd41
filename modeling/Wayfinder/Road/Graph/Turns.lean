import Wayfinder.Road.Graph.Basic

/-!
# Turns between road positions

From the end of a position a traveller may go on along every routable feature that has a point
within the coordinate tolerance of that end: forward from that point, and backward from it unless
one-way rules forbid. Going straight back along the same segment is not a turn. The incoming turns
of a position are the positions from which it is such a turn, found the same way from its start.
Each turn is weighted by the travel time of the position it leads along (for incoming turns, the
position it comes from). Features are examined by ascending number and each feature's points in
order.
-/

namespace Wayfinder

namespace RoadGraph

/-- Junction radius, metres: features are searched for within it around a junction. -/
def junctionRadius : Float := 1.0

/-- The positions that leave point `i` of feature `id` with `n` points: forward along segment `i`,
backward along segment `i - 1`. -/
def leaving (region id i n : Nat) : List Position :=
  (if i + 1 < n then [⟨region, id, i, true⟩] else []) ++
    (if i > 0 then [⟨region, id, i - 1, false⟩] else [])

/-- The turns of `pos` contributed by feature `id` of `region`, decoded as `f`, meeting at
`junction`. -/
def turnsAlong (region : Nat) (pos : Position) (outgoing : Bool) (junction : Point) (id : Nat)
    (f : Decoded) : List (Position × Float) :=
  let n := f.points.size
  (List.range n).flatMap fun i =>
    if !(f.points.getD i default).near junction then []
    else
      (leaving region id i n).filterMap fun l =>
        let cand := if outgoing then l else l.reversed
        if !cand.forward && f.oneway then none
        else if cand = pos.reversed then none
        else some (cand, f.segmentSecs cand.seg)

/-- Turns out of the end of `pos` (`outgoing`) or into its start. -/
def adjacent (pos : Position) (outgoing : Bool) : StateM RoadGraph (List (Position × Float)) := do
  let some own ← feature pos.feature | return []
  let vertex := if outgoing then pos.endIndex else pos.startIndex
  let some junction := own.points[vertex]? | return []
  let candidates := (← get).featuresNear junction junctionRadius
  let mut out : List (Position × Float) := []
  for id in candidates do
    let f? ← if id = pos.feature then pure (some own) else feature id
    match f? with
    | none => pure ()
    | some f =>
      if f.routable then out := out ++ turnsAlong (← get).region pos outgoing junction id f
  return out

/-- The positions a traveller may take after `pos`, with their travel times. -/
def possibleTurns (pos : Position) : StateM RoadGraph (List (Position × Float)) :=
  adjacent pos true

/-- The positions from which `pos` is a possible turn, with their travel times. -/
def incomingTurns (pos : Position) : StateM RoadGraph (List (Position × Float)) :=
  adjacent pos false

end RoadGraph

end Wayfinder
