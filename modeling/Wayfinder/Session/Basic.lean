import Wayfinder.Session.Config
import Wayfinder.Session.Preferences
import Wayfinder.Session.Worker
import Wayfinder.Session.Notice
import Wayfinder.Follow.Matcher
import Wayfinder.Follow.Deviation

/-!
# Routing sessions

A session holds the phase, the active mode with its guidance settings, the route and where the
follower stands on it, the last fix, the build in flight and the link to the worker. Each build
gets the next number; only the result of the build in flight is taken, so a build superseded by a
later one, or cancelled, is never seen. What the listener is told is kept in `heard`, in order.
-/

namespace Wayfinder

/-- The build in flight. -/
structure PendingBuild where
  id : Nat
  kind : BuildKind
deriving Repr, DecidableEq

/-- A routing session. -/
structure Session where
  config : SessionConfig
  atlas : Atlas
  prefs : Preferences
  /-- Whether a listener records what it is told. -/
  listening : Bool
  phase : Phase := .idle
  mode : Mode
  settings : Settings
  route : Option Route := none
  follower : Follower := {}
  offRoute : OffRoute := {}
  lastFix : Option Fix := none
  pending : Option PendingBuild := none
  nextId : Nat := 1
  heard : Array Notice := #[]
  link : Channel := {}

namespace Session

/-- Starts a session and its worker. The routers not given are a vehicle router with the absent
file policy `absent` and a walking router with the configured cache; the first mode is the stored
preference, else the configured default. -/
def start (config : SessionConfig) (atlas : Atlas) (prefs : Preferences) (listening : Bool)
    (vehicle pedestrian : Option Engine) (absent : AbsentPolicy) :
    Except SessionError (Session × Worker) := do
  config.check
  if h : 0 < config.cacheCapacity then
    let v := vehicle.getD (.drive { absent })
    let p := pedestrian.getD
      (.walk (WalkRouter.create config.cacheCapacity h config.readScale defaultWalkSnap))
    let mode := prefs.lastMode.getD config.defaultMode
    pure ({ config, atlas, prefs, listening, mode, settings := Settings.forMode mode },
      ⟨v, p, mode⟩)
  else throw (.config "cache_capacity must be non-zero")

/-- Refuses every call once the session is shut down. -/
def checkOpen (s : Session) : Except SessionError Unit :=
  if s.phase = .closed then .error .closed else .ok ()

/-- Whether a build is in flight. -/
def isPending (s : Session) : Bool := s.pending.isSome

/-- Tells the listener `n`. -/
def hear (s : Session) (n : Notice) : Session :=
  if s.listening then { s with heard := s.heard.push n } else s

/-- Forgets the build in flight; its result will be dropped. -/
def cancelPending (s : Session) : Session := { s with pending := none }

/-- Ends the build in flight with outcome `o` and no route. -/
def failPending (s : Session) (o : Outcome) : Session :=
  match s.pending with
  | none => s
  | some p => { s with pending := none, phase := p.kind.fallback }.hear (.built { outcome := o })

/-- Drops the route and the follower's position on it. -/
def dropRoute (s : Session) : Session := { s with route := none, follower := {}, offRoute := {} }

/-- Takes `r` as the route, the follower at its start. -/
def installRoute (s : Session) (r : Route) : Session :=
  { s with route := some r, follower := {}, offRoute := {} }

/-- Sends a command to the worker; `false` when the worker is gone. -/
def send (s : Session) (c : Command) : Bool × Session :=
  match s.link.send c with
  | some l => (true, { s with link := l })
  | none => (false, s)

/-- Starts build `nextId` of kind `kind`, superseding the one in flight. When the worker is gone
the build ends at once with `internalError`. -/
def launch (s : Session) (kind : BuildKind) (start finish : Point) : Nat × Session :=
  let s := s.cancelPending
  let id := s.nextId
  let s := { s with nextId := id + 1, phase := kind.running, pending := some ⟨id, kind⟩ }
  match s.send (.build id start finish) with
  | (true, s) => (id, s)
  | (false, s) => (id, s.failPending .internalError)

/-- Lets the worker run every command sent so far. -/
def settle (s : Session) (w : Worker) : Session × Worker :=
  let (w, l) := w.drain s.atlas s.link.commands.length s.link
  ({ s with link := l }, w)

end Session

end Wayfinder
