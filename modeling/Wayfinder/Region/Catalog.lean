import Wayfinder.Index.Basic

/-!
# Local map files

The device keeps map files by name. A file covers one region, has a map version and may carry a
routing extension: a routing index with its data version and format. An extension can route only
when its format is at least `minRoutingFormat` and its data version equals the map version. Adding a
file under a name already present replaces the earlier file.
-/

namespace Wayfinder

/-- The oldest routing format that can still be used. -/
def minRoutingFormat : Nat := 3

/-- The routing data of a map file. -/
structure RoutingExt where
  dataVersion : Nat
  format : Nat
  index : RoutingIndex
deriving Inhabited

/-- A map file on the device. -/
structure LocalFile where
  name : String
  region : Nat
  mapVersion : Nat
  routing : Option RoutingExt
deriving Inhabited

/-- Why a file cannot serve vehicle routing. -/
inductive FileProblem where
  | absent
  | tooOld
  | inconsistent
deriving Repr, DecidableEq

/-- The map files on the device; names are distinct. -/
structure Catalog where
  files : List LocalFile
deriving Inhabited

namespace Catalog

/-- The catalog without files. -/
def empty : Catalog := ⟨[]⟩

/-- The file of that name. -/
def find? (c : Catalog) (name : String) : Option LocalFile := c.files.find? (·.name = name)

/-- Adds a file, replacing one of the same name. -/
def insert (c : Catalog) (f : LocalFile) : Catalog :=
  if c.files.any (·.name = f.name) then ⟨c.files.map fun g => if g.name = f.name then f else g⟩
  else ⟨c.files ++ [f]⟩

/-- Removes the file of that name, returning it. -/
def remove (c : Catalog) (name : String) : Option LocalFile × Catalog :=
  (c.find? name, ⟨c.files.filter (·.name ≠ name)⟩)

/-- Number of files. -/
def size (c : Catalog) : Nat := c.files.length

/-- Whether the file is missing or has no routing data, so that it must be downloaded. -/
def missing (c : Catalog) (name : String) : Bool :=
  match c.find? name with
  | some f => f.routing.isNone
  | none => true

/-- The routing extension of a file, if it can route. -/
def usable (c : Catalog) (name : String) : Except FileProblem RoutingExt :=
  match c.find? name with
  | none => .error .absent
  | some f =>
    match f.routing with
    | none => .error .absent
    | some e =>
      if e.format < minRoutingFormat then .error .tooOld
      else if e.dataVersion ≠ f.mapVersion then .error .inconsistent
      else .ok e

end Catalog

end Wayfinder
