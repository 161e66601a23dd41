import Wayfinder.Session.Basic

/-!
# Following the route

Fixes are matched against the route held. While navigating, a fix also counts towards leaving the
route; once a full window of fixes was off the route, a rebuild starts from the fix to the end of
the route. The last fix is kept as the start of builds from the current position.
-/

namespace Wayfinder

namespace Session

/-- Starts navigating the ready route. -/
def follow (s : Session) : Except SessionError Unit × Session :=
  match s.checkOpen with
  | .error e => (.error e, s)
  | .ok () =>
    if s.phase ≠ .ready then (.error (.invalidState "follow_route" s.phase), s)
    else (.ok (), { s with offRoute := {}, phase := .navigating })

/-- Matches a fix against the route held, if there is one. -/
def matchFix (s : Session) (fix : Fix) : Option Match × Session :=
  if !s.phase.hasRoute then (none, s)
  else
    match s.route with
    | none => (none, s)
    | some r =>
      let (m, f) := s.follower.locate r fix s.settings
      (m, { s with follower := f })

/-- Takes a fix: remembers it, matches it and, while navigating, starts a rebuild once the
follower has left the route. -/
def onLocation (s : Session) (fix : Fix) : Except SessionError (Option Match) × Session :=
  match s.checkOpen with
  | .error e => (.error e, s)
  | .ok () =>
    let s := { s with lastFix := some fix }
    match s.matchFix fix with
    | (none, s) => (.ok none, s)
    | (some m, s) =>
      if s.phase = .navigating then
        let (left, o) := s.offRoute.record m.distance s.settings
        let s := { s with offRoute := o }
        if left then
          match s.route.bind Route.finish? with
          | some finish =>
            let s := { s with offRoute := {} }
            (.ok (some m), (s.launch .rebuild fix.point finish).2)
          | none => (.ok (some m), s)
        else (.ok (some m), s)
      else (.ok (some m), s)

/-- Matches a fix without counting it towards leaving the route. -/
def matchOnly (s : Session) (fix : Fix) : Except SessionError (Option Match) × Session :=
  match s.checkOpen with
  | .error e => (.error e, s)
  | .ok () => let (m, s) := s.matchFix fix; (.ok m, s)

/-- `(matched yet, distance from the start of the route)`. -/
def progress (s : Session) : Bool × Float :=
  if s.route.isNone then (false, 0.0) else s.follower.progress

/-- The next turn within the settings' look-ahead. -/
def nextTurn (s : Session) : Option TurnAhead :=
  s.route.bind fun r => s.follower.nextTurn r s.settings.turnLookahead

/-- The distance still to go. -/
def remaining (s : Session) : Option Float :=
  s.route.bind fun r => s.follower.remaining r

end Session

end Wayfinder
