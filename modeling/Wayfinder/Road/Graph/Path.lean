import Wayfinder.Road.Graph.Basic
import Wayfinder.Route.Assemble

/-!
# Routes along positions

A path of positions becomes a route by taking each position's start and end points as a leg; the
legs are joined as for any route. When the path is to run between two given points, the first leg
starts at the first and the last leg ends at the second. The first position whose feature cannot be
decoded stops the work with `disconnected`.
-/

namespace Wayfinder

namespace RoadGraph

/-- The legs of a path, or the first position whose geometry is missing. -/
def legs : List Position → StateM RoadGraph (Except RoadError (List Leg))
  | [] => return .ok []
  | p :: rest => do
    match ← positionPoints p with
    | none => return .error (.disconnected p.feature)
    | some (a, b) =>
      match ← legs rest with
      | .ok ls => return .ok (⟨p.feature, a, b⟩ :: ls)
      | .error e => return .error e

/-- The route along a path of positions. -/
def pathRoute (path : List Position) (mode : Mode) :
    StateM RoadGraph (Except RoadError Route) := do
  return (← legs path).map (Route.assemble mode)

/-- Moves the start of the first leg and the end of the last one. -/
def pinEnds (start finish : Point) (ls : List Leg) : List Leg :=
  let ls := match ls with
    | [] => []
    | l :: rest => { l with start := start } :: rest
  match ls.getLast? with
  | some l => ls.dropLast ++ [{ l with stop := finish }]
  | none => ls

/-- The route along a path of positions from `start` to `finish`. -/
def pathRouteBetween (path : List Position) (start finish : Point) (mode : Mode) :
    StateM RoadGraph (Except RoadError Route) := do
  return (← legs path).map fun ls => Route.assemble mode (pinEnds start finish ls)

end RoadGraph

end Wayfinder
