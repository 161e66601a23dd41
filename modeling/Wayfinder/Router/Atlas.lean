import Wayfinder.Region.Boxes
import Wayfinder.Region.Catalog
import Wayfinder.Road.Store

/-!
# The maps a router sees

Routers plan on the road features of a store, the region boxes that say which map file covers a
point, and the catalog of map files on the device.
-/

namespace Wayfinder

/-- Road features, region boxes and local map files. -/
structure Atlas where
  store : Store
  regions : Regions
  catalog : Catalog
deriving Inhabited

/-- Whether vehicle routing between two points is possible with the local files: both points lie in
regions whose files can route, and they share a file or both indexes support crossing regions. -/
def Atlas.canDrive (a : Atlas) (start finish : Point) : Bool :=
  match a.regions.fileAt start, a.regions.fileAt finish with
  | some x, some y =>
    match a.catalog.usable x, a.catalog.usable y with
    | .ok ex, .ok ey => x = y || (ex.index.crossRegion && ey.index.crossRegion)
    | _, _ => false
  | _, _ => false

end Wayfinder
