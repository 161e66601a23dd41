import Wayfinder.Road.Store
import Wayfinder.Road.Speed
import Wayfinder.Road.Position
import Wayfinder.Cache.Lru

/-!
# Road graphs with a feature cache

A road graph reads the features of one region from a store, decoded for one speed model: the
polyline, the travel speed (zero when the model may not use the road) and whether one-way rules
bind. Decoded features are kept in a least-recently-used cache. Every lookup counts as an access,
and every lookup that the cache cannot answer as a miss; a feature that is missing from the store
or has fewer than two points is not decoded, and is looked up again next time.

Operations run in `StateM RoadGraph`, because each lookup changes the cache and the counters.
-/

namespace Wayfinder

/-- A feature as the graph uses it. -/
structure Decoded where
  points : Array Point
  speed : Float
  oneway : Bool
deriving Inhabited

namespace Decoded

/-- Whether the model may travel on the feature. -/
def routable (d : Decoded) : Bool := d.speed > 0.0

/-- Number of segments. -/
def segmentCount (d : Decoded) : Nat := d.points.size - 1

/-- Travel time along segment `seg`, seconds. -/
def segmentSecs (d : Decoded) (seg : Nat) : Float :=
  let len := (d.points.getD seg default).distance (d.points.getD (seg + 1) default)
  len / (d.speed / 3.6)

end Decoded

/-- The road graph of one region for one speed model, with its cache and counters. -/
structure RoadGraph where
  store : Store
  region : Nat
  model : SpeedModel
  readScale : Nat
  cache : Lru Nat Decoded
  accesses : Nat
  misses : Nat

/-- The default smallest scale of features a graph reads. -/
def defaultReadScale : Nat := 17

namespace RoadGraph

/-- A graph with an empty cache of the given positive capacity. -/
def create (store : Store) (region : Nat) (model : SpeedModel) (capacity : Nat)
    (h : 0 < capacity) (readScale : Nat) : RoadGraph :=
  ⟨store, region, model, readScale, Lru.empty capacity h, 0, 0⟩

/-- Decodes feature `id` of the graph's region. -/
def decode (g : RoadGraph) (id : Nat) : Except RoadError Decoded := do
  let raw ← g.store.feature g.region id
  if raw.points.size < 2 then throw (.degenerate id raw.points.size)
  return ⟨raw.points, (g.model.speed raw).getD 0.0, g.model.oneway raw⟩

/-- Looks feature `id` up through the cache. -/
def feature (id : Nat) : StateM RoadGraph (Option Decoded) := do
  let g ← get
  let g := { g with accesses := g.accesses + 1 }
  match g.cache.get id with
  | (some d, cache) => set { g with cache := cache }; return some d
  | (none, _) =>
    let g := { g with misses := g.misses + 1 }
    match g.decode id with
    | .ok d => set { g with cache := (g.cache.insert id d).2 }; return some d
    | .error _ => set g; return none

/-- Travel time along a position, seconds, if its feature is routable and has that segment. -/
def positionSecs (p : Position) : StateM RoadGraph (Option Float) := do
  let some f ← feature p.feature | return none
  if !f.routable || p.seg ≥ f.segmentCount then return none
  return some (f.segmentSecs p.seg)

/-- The start and end points of a position. -/
def positionPoints (p : Position) : StateM RoadGraph (Option (Point × Point)) := do
  let some f ← feature p.feature | return none
  match f.points[p.startIndex]?, f.points[p.endIndex]? with
  | some a, some b => return some (a, b)
  | _, _ => return none

/-- Empties the cache; the counters are kept. -/
def softReset (g : RoadGraph) : RoadGraph := { g with cache := g.cache.clear }

/-- Share of lookups that missed, `0` before the first lookup. -/
def missRatio (g : RoadGraph) : Float :=
  if g.accesses = 0 then 0.0 else g.misses.toFloat / g.accesses.toFloat

/-- Number of cached features. -/
def cachedCount (g : RoadGraph) : Nat := g.cache.size

/-- The features of the graph's region drawn at its scale whose envelope meets the box of
`radius` metres around `p`. -/
def featuresNear (g : RoadGraph) (p : Point) (radius : Float) : List Nat :=
  let (dLat, dLon) := p.degreeRadius radius
  g.store.featuresInRect g.region ⟨p.lat - dLat, p.lon - dLon⟩ ⟨p.lat + dLat, p.lon + dLon⟩
    g.readScale

end RoadGraph

end Wayfinder
