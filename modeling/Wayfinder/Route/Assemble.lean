import Wayfinder.Route.Basic

/-!
# Routes from legs

A search yields legs: stretches of one road feature from one point to another. Joining them drops
legs shorter than the coordinate tolerance and points that repeat the previous one, and announces a
turn where the road feature changes and the heading turns by more than `turnAngle` degrees. The
last point always carries a turn.
-/

namespace Wayfinder

/-- A stretch of one road feature. -/
structure Leg where
  feature : Nat
  start : Point
  stop : Point

/-- Heading change, degrees, above which a change of road is announced as a turn. -/
def turnAngle : Float := 30.0

/-- The state of joining legs: points so far, turn indices so far, and the feature and heading of
the last leg kept. -/
structure Joining where
  points : Array Point
  turns : Array Nat
  last : Option (Nat × Float)

/-- Pushes `p` unless it repeats the last point. -/
def pushDistinct (ps : Array Point) (p : Point) : Array Point :=
  match ps.back? with
  | some q => if q.near p then ps else ps.push p
  | none => ps.push p

/-- Adds one leg. -/
def Joining.add (s : Joining) (leg : Leg) : Joining :=
  if leg.start.near leg.stop then
    if s.points.isEmpty then { s with points := s.points.push leg.start } else s
  else
    let heading := leg.start.bearing leg.stop
    let turnHere := match s.last with
      | some (f, h) =>
        f != leg.feature && headingDelta h heading > turnAngle && !s.points.isEmpty
      | none => false
    let turns := if turnHere then s.turns.push (s.points.size - 1) else s.turns
    let points := pushDistinct (pushDistinct s.points leg.start) leg.stop
    ⟨points, turns, some (leg.feature, heading)⟩

/-- The route along `legs`. -/
def Route.assemble (mode : Mode) (legs : List Leg) : Route :=
  let s := legs.foldl Joining.add ⟨#[], #[], none⟩
  let turns := if s.points.isEmpty then s.turns else s.turns.push (s.points.size - 1)
  Route.ofPoints mode s.points.toList turns.toList

end Wayfinder
