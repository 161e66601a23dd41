import Wayfinder.Session.Basic

/-!
# Building and closing

A build drops the route held and supersedes the build in flight, and stores the active mode as
the preference. Changing the mode is refused while a build is in flight. Closing routing drops
the build in flight and the route; a reset also empties the routers' caches, for map files that
changed; shutting down stops the worker for good.
-/

namespace Wayfinder

namespace Session

/-- Starts a fresh build from `start` to `finish`; answers its number. -/
def buildRoute (s : Session) (start finish : Point) : Except SessionError Nat × Session :=
  match s.checkOpen with
  | .error e => (.error e, s)
  | .ok () =>
    let s := if s.phase.hasRoute then s.dropRoute else s
    let s := { s with prefs := s.prefs.remember s.mode }
    let (id, s) := s.launch .fresh start finish
    (.ok id, s)

/-- Starts a fresh build from the last fix. Without a fix the listener is told
`noCurrentPosition` and nothing else happens. -/
def buildFromCurrent (s : Session) (finish : Point) : Except SessionError (Option Nat) × Session :=
  match s.checkOpen with
  | .error e => (.error e, s)
  | .ok () =>
    match s.lastFix with
    | some f =>
      let (r, s) := s.buildRoute f.point finish
      (r.map some, s)
    | none => (.ok none, s.hear (.built { outcome := .noCurrentPosition }))

/-- Makes `m` the mode of later builds, with its settings. -/
def setMode (s : Session) (m : Mode) : Except SessionError Unit × Session :=
  match s.checkOpen with
  | .error e => (.error e, s)
  | .ok () =>
    if s.isPending then (.error .buildInFlight, s)
    else if m = s.mode then (.ok (), s)
    else
      let (_, s) := s.send (.setMode m)
      (.ok (), { s with mode := m, settings := Settings.forMode m })

/-- The mode best suited to a trip, given the stored preference and the local files. -/
def select (s : Session) (start finish : Point) : Mode :=
  Mode.chooseWithin s.config.keepWalking start finish s.prefs.lastMode s.atlas.canDrive

/-- Drops the build in flight and the route; the session becomes idle. -/
def close (s : Session) : Except SessionError Unit × Session :=
  match s.checkOpen with
  | .error e => (.error e, s)
  | .ok () => (.ok (), { s.cancelPending.dropRoute with phase := .idle })

/-- Closes routing and empties the routers' caches. -/
def reset (s : Session) : Except SessionError Unit × Session :=
  match s.close with
  | (.error e, s) => (.error e, s)
  | (.ok (), s) => (.ok (), (s.send .softReset).2)

/-- Drops the route. A session holding one also drops the build in flight and becomes idle; a
build for a new trip goes on. -/
def removeRoute (s : Session) : Except SessionError Unit × Session :=
  match s.checkOpen with
  | .error e => (.error e, s)
  | .ok () =>
    let s := if s.phase.hasRoute then { s.cancelPending with phase := .idle } else s
    (.ok (), s.dropRoute)

/-- Stops the worker and closes the session for good. -/
def shutdown (s : Session) : Except SessionError Unit × Session :=
  match s.checkOpen with
  | .error e => (.error e, s)
  | .ok () =>
    let s := (s.cancelPending.dropRoute.send .shutdown).2
    (.ok (), { s with phase := .closed })

end Session

end Wayfinder
