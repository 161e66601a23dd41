import Wayfinder.Road.Feature
import Wayfinder.Road.Error
import Wayfinder.Spatial.Query
import Wayfinder.Hash.Slots

/-!
# Feature stores

Features are collected region by region in a `StoreBuilder` and then built into a `Store`. A store
keeps the road features of each region, at most one per feature number: a feature added under a
number already present replaces the earlier one. Features are listed by ascending number, which
is the order every query answers in.

A rectangle query returns the features drawn at the given scale that the region's box tree finds
meeting the rectangle. The tree holds the envelopes of the features that have a point, loaded in
the slot order of a hash table into which the feature numbers were inserted in the order the
features were added (`Hash.SlotTable`). With finite coordinates this finds exactly the features
whose envelope meets the rectangle; a NaN coordinate can hide features, depending on that order.
-/

namespace Wayfinder

/-- A feature as the box tree of its region holds it. -/
structure FeatureEntry where
  box : Box
  id : Nat
  minScale : Nat
deriving Inhabited

instance : Bounded FeatureEntry := ⟨FeatureEntry.box⟩

/-- The features of one region, by ascending number, and their box tree. -/
structure RegionFeatures where
  region : Nat
  features : List Feature
  tree : SpatialTree FeatureEntry

/-- Road features by region. -/
structure Store where
  regions : List RegionFeatures

instance : Inhabited Store := ⟨⟨[]⟩⟩

/-- Puts `f` into a list sorted by number, replacing a feature of the same number. -/
def insertFeature (f : Feature) : List Feature → List Feature
  | [] => [f]
  | g :: rest =>
    if f.id < g.id then f :: g :: rest
    else if f.id = g.id then f :: rest
    else g :: insertFeature f rest

/-- Features collected by region, each region's in the order they were added. -/
structure StoreBuilder where
  regions : List (Nat × Array Feature)
deriving Inhabited

namespace StoreBuilder

/-- The builder without regions. -/
def empty : StoreBuilder := ⟨[]⟩

/-- Changes the features of region `r`, adding the region if needed. -/
def modifyRegion (b : StoreBuilder) (r : Nat) (f : Array Feature → Array Feature) :
    StoreBuilder :=
  if b.regions.any fun g => g.1 = r then
    ⟨b.regions.map fun g => if g.1 = r then (r, f g.2) else g⟩
  else ⟨b.regions ++ [(r, f #[])]⟩

/-- Registers region `r`, which may stay without features. -/
def addRegion (b : StoreBuilder) (r : Nat) : StoreBuilder := b.modifyRegion r id

/-- Adds `f` to region `r`; it replaces a feature of the same number when built. -/
def addFeature (b : StoreBuilder) (r : Nat) (f : Feature) : StoreBuilder :=
  b.modifyRegion r (·.push f)

/-- The features of a region as built from the ones added, in order. -/
def buildRegion (r : Nat) (added : Array Feature) : RegionFeatures :=
  let features := added.foldl (fun acc f => insertFeature f acc) []
  let order := (Hash.SlotTable.ofList (added.toList.map Feature.id)).keys
  let entries := order.filterMap fun id =>
    (features.find? fun f => f.id = id).bind fun f =>
      f.envelope.map fun e => ⟨e, id, f.minScale⟩
  ⟨r, features, SpatialTree.load entries⟩

/-- The store of the features added. -/
def build (b : StoreBuilder) : Store := ⟨b.regions.map fun g => buildRegion g.1 g.2⟩

end StoreBuilder

namespace Store

/-- The store without regions. -/
def empty : Store := ⟨[]⟩

/-- The region `r`, if the store has it. -/
def region? (s : Store) (r : Nat) : Option RegionFeatures := s.regions.find? fun g => g.region = r

/-- The features of region `r`, if the store has the region. -/
def features? (s : Store) (r : Nat) : Option (List Feature) :=
  (s.region? r).map RegionFeatures.features

/-- Number of regions. -/
def regionCount (s : Store) : Nat := s.regions.length

/-- Whether the store has region `r`. -/
def hasRegion (s : Store) (r : Nat) : Bool := (s.features? r).isSome

/-- Number of features of region `r`. -/
def featureCount (s : Store) (r : Nat) : Nat := ((s.features? r).getD []).length

/-- The feature numbered `id` in region `r`. -/
def feature (s : Store) (r id : Nat) : Except RoadError Feature :=
  match (s.features? r).bind fun fs => fs.find? fun f => f.id = id with
  | some f => .ok f
  | none => .error (.featureNotFound r id)

/-- Ascending numbers of the features of `r` drawn at `scale`. -/
def regionFeatures (s : Store) (r scale : Nat) : List Nat :=
  (((s.features? r).getD []).filter fun f => f.minScale ≤ scale).map Feature.id

/-- Ascending numbers of the features of `r` drawn at `scale` that the region's tree finds
meeting the box with corners `a` and `b`. -/
def featuresInRect (s : Store) (r : Nat) (a b : Point) (scale : Nat) : List Nat :=
  match s.region? r with
  | none => []
  | some g =>
    let hits := ((g.tree.within (Box.ofCorners a b)).filter fun e => e.minScale ≤ scale).map
      FeatureEntry.id
    (g.features.filter fun f => hits.contains f.id).map Feature.id

end Store

end Wayfinder
