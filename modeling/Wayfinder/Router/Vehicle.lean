import Wayfinder.Router.Absent
import Wayfinder.Router.Plan
import Wayfinder.Router.Monitor
import Wayfinder.Index.Snap
import Wayfinder.Index.Query
import Wayfinder.Index.Border
import Wayfinder.Route.Assemble

/-!
# Planning drives

A drive is planned on the routing indexes of the map files that cover its start and finish. Both
files must be on the device with usable routing data; when some are missing, the files the trip
needs are reported instead. Start and finish are snapped to the nearest drivable segment of their
index. In one region the route is the cheaper of driving straight along a shared segment and the
index path between the snaps; across two regions it is the cheapest combination of a path to a
border node and a path on from there, when both indexes support crossing. A delivered route that
passes regions whose files are missing comes with those files, as `needMoreMaps`.
-/

namespace Wayfinder

/-- Snap radius of drives unless set otherwise, metres. -/
def defaultDriveSnap : Float := 1000.0

/-- A router for drives: how it finds missing files and how far it snaps. -/
structure VehicleRouter where
  absent : AbsentPolicy := .sampling sampleStep
  snapRadius : Float := defaultDriveSnap
deriving Inhabited

/-- The legs of an index path, each link along its feature. -/
def IndexPath.legs (x : RoutingIndex) (p : IndexPath) : List Leg :=
  ((p.nodes.zip p.nodes.tail).zip p.features).map fun ((a, b), f) => ⟨f, x.pos a, x.pos b⟩

/-- The route from snap `s` through index paths to snap `t`. -/
def pathRoute (s t : EdgeSnap) (paths : List (RoutingIndex × IndexPath)) : Route :=
  let first := match paths.head? with
    | some (x, p) => (p.nodes.head?.map x.pos).getD s.point
    | none => s.point
  let last := match paths.getLast? with
    | some (x, p) => (p.nodes.getLast?.map x.pos).getD t.point
    | none => t.point
  let inner := paths.flatMap fun (x, p) => p.legs x
  Route.assemble .vehicle (⟨s.feature, s.point, first⟩ :: inner ++ [⟨t.feature, last, t.point⟩])

/-- One border node `(here, there)`, the `i`-th of `total`, tried after the best way across so far:
the path to it and, unless that alone costs no less than the best so far, the path on from it. A
cheaper sum becomes the best, and progress is reported. -/
def crossStep (src dst : RoutingIndex) (s t : EdgeSnap) (total : Nat)
    (acc : Except Outcome (Option (Nat × IndexPath × IndexPath)) × Monitor) (item : Nat × Nat × Nat) :
    Except Outcome (Option (Nat × IndexPath × IndexPath)) × Monitor :=
  match acc with
  | (.error o, m) => (.error o, m)
  | (.ok best, m) =>
    let (i, here, there) := item
    match src.queryBetween s.exits [(here, 0)] m with
    | (.error o, m) => (.error o, m)
    | (.ok none, m) => (.ok best, m)
    | (.ok (some a), m) =>
      if best.any (fun b => a.cost ≥ b.1) then (.ok best, m)
      else
        match dst.queryBetween [(there, 0)] t.entries m with
        | (.error o, m) => (.error o, m)
        | (.ok none, m) => (.ok best, m)
        | (.ok (some b), m) =>
          let sum := a.cost + b.cost
          let best := if best.all (fun c => sum < c.1) then some (sum, a, b) else best
          let pct := (100.0 : Float32) * (i + 1).toFloat32 / total.toFloat32
          (.ok best, m.report pct)

/-- The best way across the border of two indexes: each shared node tried in order
(`crossStep`), progress reported after each border node fully tried. -/
def crossBorder (src dst : RoutingIndex) (s t : EdgeSnap) (m : Monitor) :
    Except Outcome (Option (IndexPath × IndexPath)) × Monitor :=
  let border := src.borderNodes dst
  match ((List.range border.length).zip border).foldl (crossStep src dst s t border.length) (.ok none, m) with
  | (.error o, m) => (.error o, m)
  | (.ok best, m) => (.ok (best.map fun (_, a, b) => (a, b)), m)

/-- The files of start and finish, each once, with their routing data or what is wrong. -/
def tripFiles (a : Atlas) (startFile finishFile : String) : List (String × Except FileProblem RoutingExt) :=
  let names := if startFile = finishFile then [startFile] else [startFile, finishFile]
  names.map fun n => (n, a.catalog.usable n)

namespace VehicleRouter

/-- The route between two snaps on the usable extensions `exts` (one or two). -/
def drive (exts : List RoutingExt) (s t : EdgeSnap) (m : Monitor) : Except Outcome Route × Monitor :=
  match exts with
  | [e] =>
    match e.index.queryBetween s.exits t.entries m with
    | (.error o, m) => (.error o, m)
    | (.ok found, m) =>
      match s.directCost t, found with
      | some _, none => (.ok (Route.assemble .vehicle [⟨s.feature, s.point, t.point⟩]), m)
      | some direct, some p =>
        if direct ≤ p.cost then (.ok (Route.assemble .vehicle [⟨s.feature, s.point, t.point⟩]), m)
        else (.ok (pathRoute s t [(e.index, p)]), m)
      | none, some p => (.ok (pathRoute s t [(e.index, p)]), m)
      | none, none => (.error .routeNotFound, m)
  | [e, f] =>
    if !(e.index.crossRegion && f.index.crossRegion) then (.error .pointsInDifferentRegion, m)
    else
      match crossBorder e.index f.index s t m with
      | (.error o, m) => (.error o, m)
      | (.ok none, m) => (.error .routeNotFound, m)
      | (.ok (some (p, q)), m) => (.ok (pathRoute s t [(e.index, p), (f.index, q)]), m)
  | _ => (.error .internalError, m)

/-- Plans a drive from `start` to `finish`. -/
def plan (r : VehicleRouter) (a : Atlas) (start finish : Point) (m : Monitor) : Plan × Monitor :=
  let done (p : Plan) (m : Monitor) : Plan × Monitor := ({ p with visited := m.visited }, m)
  match a.regions.fileAt start, a.regions.fileAt finish with
  | none, _ => done (.failure .startPointNotFound) m
  | some _, none => done (.failure .endPointNotFound) m
  | some sf, some ff =>
    let files := tripFiles a sf ff
    match files.find? fun (_, u) => match u with | .error .absent => false | .error _ => true | .ok _ => false with
    | some (n, .error .tooOld) => done { Plan.failure .fileTooOld with absent := [n] } m
    | some (n, _) => done { Plan.failure .inconsistentRegionAndRoute with absent := [n] } m
    | none =>
      let missing := (files.filter fun (_, u) => match u with | .ok _ => false | _ => true).map Prod.fst
      if !missing.isEmpty then
        let extra := r.absent.absentFiles a start finish []
        done { Plan.failure .routeFileNotExist with absent := extra.foldl pushUnique missing } m
      else
        let exts := files.filterMap fun (_, u) => u.toOption
        match exts.head?, exts.getLast? with
        | some e, some f =>
          match e.index.snap start r.snapRadius, f.index.snap finish r.snapRadius with
          | none, _ => done (.failure .startPointNotFound) m
          | some _, none => done (.failure .endPointNotFound) m
          | some s, some t =>
            let m := m.report 0.0
            match drive exts s t m with
            | (.error o, m) => done (.failure o) m
            | (.ok route, m) =>
              let m := m.report 100.0
              match route.requireValid with
              | .error o => done (.failure o) m
              | .ok route =>
                let absent := r.absent.absentFiles a start finish route.points.toList
                if absent.isEmpty then done { outcome := .noError, route := some route } m
                else done { outcome := .needMoreMaps, route := some route, absent := absent } m
        | _, _ => done (.failure .internalError) m

end VehicleRouter

end Wayfinder
