import Wayfinder.Session.Basic

/-!
# Taking the worker's messages

Messages take effect only when the session reads its inbox. Progress of the build in flight is
passed to the listener; the result of the build in flight ends it: the listener is told the
build's counters and then its result, and the session moves on. A result of any other build is
dropped. When the worker is gone the build in flight ends with `internalError`.
-/

namespace Wayfinder

namespace Session

/-- Splits missing files into regions whose maps are missing and regions whose maps are present
but lack routing data: a file counts for routing data only when it is present and the outcome is
not `fileTooOld`. Files of unknown regions are left out. -/
def classifyAbsent (s : Session) (o : Outcome) (files : List String) : List Nat × List Nat :=
  files.foldl (fun (maps, routing) name =>
    match s.atlas.regions.regionOf name with
    | none => (maps, routing)
    | some region =>
      if (s.atlas.catalog.find? name).isSome && o ≠ .fileTooOld then
        (maps, pushUnique routing region)
      else (pushUnique maps region, routing)) ([], [])

/-- Takes the result of build `id` made on mode `mode`. -/
def onBuilt (s : Session) (id : Nat) (mode : Mode) (p : Plan) : Session :=
  match s.pending with
  | none => s
  | some pb =>
    if pb.id ≠ id then s
    else
      let s := { s with pending := none }
      if p.outcome = .cancelled then { s with phase := pb.kind.fallback }
      else
        let s := s.hear (.stats ⟨mode, p.outcome, p.visited, p.cache, p.route.map Route.length⟩)
        let (maps, routing) := s.classifyAbsent p.outcome p.absent
        let route := p.route.filter fun r => p.outcome.hasRoute && r.valid
        let outcome := if p.outcome.hasRoute && route.isNone then .routeNotFound else p.outcome
        let s := match pb.kind, route with
          | .fresh, some r => { s.installRoute r with phase := .ready }
          | .fresh, none => { s.dropRoute with phase := .idle }
          | .rebuild, some r => { s.installRoute r with phase := .navigating }
          | .rebuild, none => { s with phase := .navigating }
        s.hear (.built ⟨outcome, route, maps, routing⟩)

/-- Takes one message. -/
def handle (s : Session) : Message → Session
  | .progress id percent =>
    if s.pending.map PendingBuild.id = some id then s.hear (.progress percent) else s
  | .built id mode p => s.onBuilt id mode p

/-- Ends the build in flight because the worker is gone. -/
def workerLost (s : Session) : Session := s.failPending .internalError

/-- Takes every message in the inbox; answers how many. -/
def processEvents (s : Session) : Except SessionError Nat × Session :=
  match s.checkOpen with
  | .error e => (.error e, s)
  | .ok () =>
    let n := s.link.inbox.length
    let s := s.link.inbox.foldl handle { s with link := { s.link with inbox := [] } }
    (.ok n, if s.link.alive then s else s.workerLost)

/-- Takes one message, if there is one; answers whether there was. -/
def waitEvent (s : Session) : Except SessionError Bool × Session :=
  match s.checkOpen with
  | .error e => (.error e, s)
  | .ok () =>
    match s.link.receive with
    | (.message m, l) => (.ok true, { s with link := l }.handle m)
    | (.empty, _) => (.ok false, s)
    | (.gone, _) => (.ok false, s.workerLost)

/-- Takes messages while a build is in flight, at most `fuel` of them. -/
def waitLoop (s : Session) : Nat → Except SessionError Bool × Session
  | 0 => (.ok s.pending.isNone, s)
  | fuel + 1 =>
    if s.pending.isNone then (.ok true, s)
    else
      match s.waitEvent with
      | (.error e, s) => (.error e, s)
      | (.ok true, s) => waitLoop s fuel
      | (.ok false, s) => (.ok s.pending.isNone, s)

/-- Waits until no build is in flight, taking messages as they come; answers `false` when the
wait ends first. With no time to wait, a build in flight ends the wait at once. -/
def waitIdle (s : Session) (patient : Bool) : Except SessionError Bool × Session :=
  if s.pending.isNone then (.ok true, s)
  else if !patient then (.ok false, s)
  else s.waitLoop (s.link.inbox.length + 1)

end Session

end Wayfinder
