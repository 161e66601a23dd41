import Wayfinder.Router.Vehicle
import Wayfinder.Router.Walk

/-!
# The build worker

Builds run apart from the session, on a worker that owns one router per mode. The two sides share
nothing but a link: commands go from the session to the worker in order, and progress and results
come back through an inbox in order. The worker runs one command at a time: a build on the active
router, posting its progress and then its result tagged with the build's number; a change of the
active router, which first empties the caches of the router left; an emptying of both routers'
caches; or the end of its work.

A router may also fail without an answer. The worker then stops, as it does on the command to
end: the session's later commands are refused and, once the inbox is read empty, the session sees
the worker gone.
-/

namespace Wayfinder

/-- A router owned by the worker. -/
inductive Engine where
  | drive (r : VehicleRouter)
  | walk (r : WalkRouter)
  /-- A router that fails on every request without an answer. -/
  | faulty

namespace Engine

/-- Plans a trip, with the router in its next state; `none` when the router failed. -/
def plan (e : Engine) (a : Atlas) (start finish : Point) (m : Monitor) :
    Option (Plan × Monitor × Engine) :=
  match e with
  | .drive r => let (p, m) := r.plan a start finish m; some (p, m, .drive r)
  | .walk r => let (p, m, r) := r.plan a start finish m; some (p, m, .walk r)
  | .faulty => none

/-- The router with its caches emptied. -/
def softReset : Engine → Engine
  | .walk r => .walk r.softReset
  | e => e

end Engine

/-- Work sent by the session. -/
inductive Command where
  | build (id : Nat) (start finish : Point)
  | setMode (m : Mode)
  | softReset
  | shutdown

/-- What the worker posts to the inbox. -/
inductive Message where
  | progress (id : Nat) (percent : Float32)
  | built (id : Nat) (mode : Mode) (plan : Plan)

/-- The commands not yet taken, the messages not yet read, and whether the worker still runs. -/
structure Channel where
  commands : List Command := []
  inbox : List Message := []
  alive : Bool := true

/-- What reading the inbox gives. -/
inductive Receipt where
  | message (m : Message)
  /-- Nothing to read yet. -/
  | empty
  /-- Nothing to read, ever: the worker is gone. -/
  | gone

namespace Channel

/-- Sends a command; `none` when the worker is gone. -/
def send (l : Channel) (c : Command) : Option Channel :=
  if l.alive then some { l with commands := l.commands ++ [c] } else none

/-- Reads the oldest message. -/
def receive (l : Channel) : Receipt × Channel :=
  match l.inbox with
  | m :: rest => (.message m, { l with inbox := rest })
  | [] => (if l.alive then .empty else .gone, l)

end Channel

/-- The worker: a router per mode and the one in use. -/
structure Worker where
  vehicle : Engine
  pedestrian : Engine
  active : Mode

namespace Worker

/-- The router of mode `m`. -/
def engine (w : Worker) : Mode → Engine
  | .vehicle => w.vehicle
  | .pedestrian => w.pedestrian

/-- Replaces the router of mode `m`. -/
def setEngine (w : Worker) (m : Mode) (e : Engine) : Worker :=
  match m with
  | .vehicle => { w with vehicle := e }
  | .pedestrian => { w with pedestrian := e }

/-- Runs one command: the worker's next state, the messages it posts, and whether it keeps
running. -/
def perform (w : Worker) (a : Atlas) : Command → Worker × List Message × Bool
  | .build id start finish =>
    match (w.engine w.active).plan a start finish {} with
    | some (p, m, e) =>
      (w.setEngine w.active e,
        m.reports.toList.map (Message.progress id) ++ [.built id w.active p], true)
    | none => (w, [], false)
  | .setMode m =>
    if m = w.active then (w, [], true)
    else ({ w.setEngine w.active (w.engine w.active).softReset with active := m }, [], true)
  | .softReset => (⟨w.vehicle.softReset, w.pedestrian.softReset, w.active⟩, [], true)
  | .shutdown => (w, [], false)

/-- Takes the oldest command, if the worker runs and one is waiting, and runs it. -/
def step (w : Worker) (a : Atlas) (l : Channel) : Worker × Channel :=
  match l.alive, l.commands with
  | true, c :: rest =>
    let (w, posted, alive) := w.perform a c
    (w, { commands := if alive then rest else [], inbox := l.inbox ++ posted, alive })
  | _, _ => (w, l)

/-- Runs the waiting commands, at most `fuel` of them. -/
def drain (w : Worker) (a : Atlas) : Nat → Channel → Worker × Channel
  | 0, l => (w, l)
  | fuel + 1, l =>
    match l.alive, l.commands with
    | true, _ :: _ => let (w, l) := w.step a l; w.drain a fuel l
    | _, _ => (w, l)

end Worker

end Wayfinder
