import Wayfinder.Router.Atlas
import Wayfinder.Router.Error
import Wayfinder.Binary.Remainder

/-!
# Files a trip still needs

Before and after planning a drive, the router asks which map files along the trip are missing on
the device. Sampling walks the chord from start to finish and then the route, taking a point every
`step` metres along each polyline (and its two ends), and reports the file of every sample that is
missing, each once, in the order first met. A remote service may instead name the trip's files;
those missing locally are reported, and when the service fails the samples decide.
-/

namespace Wayfinder

/-- Distance between samples, metres, unless set otherwise. -/
def sampleStep : Float := 2000.0

/-- Appends `x` unless it is present. -/
def pushUnique {α : Type} [BEq α] (xs : List α) (x : α) : List α :=
  if xs.contains x then xs else xs ++ [x]

/-- How missing files are found. -/
inductive AbsentPolicy where
  /-- Sampling every `step` metres. -/
  | sampling (step : Float)
  /-- A remote service's answer, sampling every `sampleStep` metres if it failed. -/
  | online (answer : Except RouterError (List String))
deriving Inhabited

/-- Sampling with the step raised to at least one metre. -/
def AbsentPolicy.withStep (step : Float) : AbsentPolicy := .sampling (Binary.maxNum step 1.0)

/-- Sample points `offset, offset + step, …` not beyond `len` along the segment `a → b`, with
`fuel` bounding their number. -/
def samplesAlong (a b : Point) (len step : Float) : Nat → Float → List Point
  | 0, _ => []
  | fuel + 1, offset =>
    if offset ≤ len then a.lerp b (offset / len) :: samplesAlong a b len step fuel (offset + step)
    else []

/-- Samples inside the segments of a polyline, `sinceLast` metres after the last sample. -/
def samplesInside (step sinceLast : Float) : List Point → List Point
  | a :: b :: rest =>
    let len := a.distance b
    let fuel := (len / step).toUInt64.toNat + 2
    samplesAlong a b len step fuel (step - sinceLast) ++
      samplesInside step (Binary.fmod (sinceLast + len) step) (b :: rest)
  | _ => []

/-- Samples of a polyline: its first point, a point every `step` metres of length, its last point.
The distance since the last sample carries over from segment to segment. -/
def samplePolyline (step : Float) (pts : List Point) : List Point :=
  match pts with
  | [] => []
  | first :: _ => first :: samplesInside step 0.0 pts ++ pts.getLast?.toList

/-- The files of the samples that are missing on the device, each once. -/
def sampledAbsent (a : Atlas) (step : Float) (start finish : Point) (route : List Point) :
    List String :=
  let samples := samplePolyline step [start, finish] ++ samplePolyline step route
  samples.foldl (fun acc p =>
    match a.regions.fileAt p with
    | some name => if a.catalog.missing name then pushUnique acc name else acc
    | none => acc) []

/-- The files a trip from `start` to `finish` along `route` still needs. -/
def AbsentPolicy.absentFiles (pol : AbsentPolicy) (a : Atlas) (start finish : Point)
    (route : List Point) : List String :=
  match pol with
  | .sampling step => sampledAbsent a step start finish route
  | .online (.ok files) =>
    files.foldl (fun acc name => if a.catalog.missing name then pushUnique acc name else acc) []
  | .online (.error _) => sampledAbsent a sampleStep start finish route

end Wayfinder
