import Wayfinder.Demo.Network
import Wayfinder.Session.Build
import Wayfinder.Session.Follow
import Wayfinder.Session.Inbox

/-!
# The demonstration run

An end-to-end run of a routing session on the demonstration map, told as console lines:

1. a short walk, with the mode the session recommends and walking anyway;
2. a drive across the region border, followed point by point, with a wrong turn that makes the
   session rebuild the route, and the rest of the drive on the new route;
3. a trip into the region that was never downloaded.

The listener prints everything it is told as it is told. Wall-clock times are not part of a pure
run: a line holds a slot for the time of the stage that prints it, filled in by whoever runs the
stages.
-/

namespace Wayfinder

namespace Demo

/-- A piece of a console line: text, or the time taken by the stage that prints the line. -/
inductive Piece where
  | text (s : String)
  | elapsed

/-- A console line. -/
abbrev Line := List Piece

/-- The line with its time slots written as `ms`. -/
def render (ms : String) (l : Line) : String :=
  String.join (l.map fun | .text s => s | .elapsed => ms)

/-- The session and its worker, with the lines printed so far. -/
structure Run where
  session : Session
  worker : Worker
  lines : Array Line := #[]

/-- Where the walk and the drive start. -/
def home : Point := ⟨30.670, -88.085⟩
/-- Where the walk ends. -/
def bakery : Point := ⟨30.690, -88.075⟩
/-- Where the drive ends. -/
def office : Point := ⟨30.710, -88.035⟩
/-- Where the driver takes a wrong turn. -/
def wrongTurn : Point := ⟨30.710, -88.070⟩
/-- A destination in the region never downloaded. -/
def lakeHouse : Point := ⟨30.750, -88.050⟩

/-- Region numbers as a bracketed list. -/
def regionList (rs : List Nat) : String :=
  "[" ++ ", ".intercalate (rs.map IdKind.region.text) ++ "]"

/-- The lines the listener prints for a notice. -/
def noticeLines : Notice → List Line
  | .progress p => [[.text ("  progress " ++ String.padLeft 5 (p.toFloat.fixedText 1) ++ "%")]]
  | .stats s =>
    let cache := match s.cache with
      | some (accesses, misses) =>
        ", cache " ++ toString misses ++ "/" ++ toString accesses ++ " misses"
      | none => ""
    [[.text ("  stats: " ++ toString s.visited ++ " visited, "), .elapsed, .text (" ms" ++ cache)]]
  | .built r =>
    let head := match r.route with
      | some route =>
        "  built: " ++ r.outcome.name ++ " (" ++ route.mode.name ++ " router, " ++
          route.length.fixedText 0 ++ " m, " ++ toString route.points.size ++ " points, " ++
          toString route.turns.length ++ " turns)"
      | none => "  built: " ++ r.outcome.name
    [[.text head]] ++
      (if r.absentMaps.isEmpty then []
       else [[.text ("    download maps for regions " ++ regionList r.absentMaps)]]) ++
      (if r.absentRouting.isEmpty then []
       else [[.text ("    download routing for regions " ++ regionList r.absentRouting)]])

/-- A step of the run: it reads and changes the run, and may end it early with a message; the
lines printed before the end are kept. -/
abbrev Act := ExceptT String (StateM Run)

/-- Prints a line. -/
def sayLine (l : Line) : Act Unit := modify fun d => { d with lines := d.lines.push l }

/-- Prints a line of text. -/
def say (s : String) : Act Unit := sayLine [.text s]

/-- Reads the session. -/
def query (f : Session → α) : Act α := return f (← get).session

/-- Makes a session call, lets the worker catch up, and prints what the listener was told; a
refused call ends the run with its message. -/
def call (f : Session → Except SessionError α × Session) : Act α := do
  let d ← get
  let (r, s) := f d.session
  let (s, w) := s.settle d.worker
  let heard := s.heard.toList.flatMap noticeLines
  set ({ session := { s with heard := #[] }, worker := w, lines := d.lines ++ heard.toArray } : Run)
  match r with
  | .ok a => pure a
  | .error e => throw e.message

/-- Builds a route and waits for it. -/
def buildAndWait (start finish : Point) : Act Unit := do
  let id ← call fun s => s.buildRoute start finish
  say ("  build #" ++ toString id ++ ": " ++ start.text ++ " → " ++ finish.text)
  let done ← call fun s => s.waitIdle true
  if !done then throw ("build #" ++ toString id ++ " did not finish within 10s")
  let phase ← query Session.phase
  sayLine [.text ("  state " ++ phase.name ++ " after "), .elapsed, .text " ms"]

/-- Feeds the points of the route as fixes, the first `stop` of them when a limit is given,
printing where each was matched. -/
def drive (stop : Option Nat) : Act Unit := do
  let some route ← query Session.route | return
  let points := match stop with
    | some n => route.points.toList.take n
    | none => route.points.toList
  for p in points do
    if let some m ← call fun s => s.onLocation (Fix.ofPoint p) then
      let turn := match ← query Session.nextTurn with
        | some t => "turn in " ++ t.distance.fixedText 0 ++ " m"
        | none => "no turn ahead"
      let left := ((← query Session.remaining).getD 0.0).fixedText 0
      say ("  at " ++ String.padLeft 6 (m.offset.fixedText 0) ++ " m of " ++
        route.length.fixedText 0 ++ " m, " ++ left ++ " m left, " ++ turn)

/-- The heading of the run. -/
def heading : String := "=== commute: nav routing session ==="

/-- The heading, the map and a new session. -/
def opening : Except String Run := do
  let (atlas, indexLines) ← network
  let (s, w) ← (Session.start {} atlas {} true none none (.sampling sampleStep)).mapError
    SessionError.message
  let lines := (heading :: indexLines ++ [""]).map fun t => [Piece.text t]
  return ⟨s, w, lines.toArray⟩

/-- The walk to the bakery. -/
def walk : Act Unit := do
  let mode ← query fun s => s.select home bakery
  say ("Walk to the bakery: " ++ mode.name ++ " router recommended, walking anyway")
  call fun s => s.setMode .pedestrian
  buildAndWait home bakery
  call Session.close
  say ""

/-- The drive to the office, with a wrong turn on the way. -/
def officeTrip : Act Unit := do
  say "Drive to the office"
  call fun s => s.setMode .vehicle
  buildAndWait home office
  if (← query Session.phase) ≠ .ready then throw "no route to the office"
  call Session.follow
  drive (some 4)
  say ("  wrong turn at " ++ wrongTurn.text)
  let window ← query fun s => s.settings.deviationWindow
  for _ in List.range window do
    let _ ← call fun s => s.onLocation (Fix.ofPoint wrongTurn)
  say ("  state " ++ (← query Session.phase).name)
  if !(← call fun s => s.waitIdle true) then throw "rebuild did not finish within 10s"
  say ("  state " ++ (← query Session.phase).name)
  drive none
  call Session.close
  say ""

/-- The trip into the region never downloaded, and the end of the session. -/
def lakeTrip : Act Unit := do
  say "Drive to the lake house"
  buildAndWait home lakeHouse
  call Session.shutdown

/-- The stages after the opening, in order. -/
def stages : List (Act Unit) := [walk, officeTrip, lakeTrip]

/-- Runs everything: the lines printed, and the message that ended the run early, if one did. -/
def transcript : List Line × Option String :=
  match opening with
  | .error e => ([[.text heading]], some e)
  | .ok d =>
    match (stages.forM id).run.run d with
    | (.ok (), d) => (d.lines.toList, none)
    | (.error e, d) => (d.lines.toList, some e)

end Demo

end Wayfinder
