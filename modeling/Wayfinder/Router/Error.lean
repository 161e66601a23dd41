import Wayfinder.Road.Error

/-!
# Errors of routers

Building a routing index needs the region in the feature store, and asking a remote service which
files a trip needs can fail; road errors pass through.
-/

namespace Wayfinder

/-- Why a router could not be set up or asked. -/
inductive RouterError where
  /-- The feature store has no such region. -/
  | unknownRegion (region : Nat)
  /-- The remote service that knows the files of a trip failed. -/
  | lookup (text : String)
  /-- Road data could not be read. -/
  | road (e : RoadError)
deriving Repr, DecidableEq

/-- The text of a `RouterError`. -/
def RouterError.message : RouterError → String
  | .unknownRegion r => "region " ++ IdKind.region.text r ++ " is not present in the feature store"
  | .lookup t => "remote region lookup failed: " ++ t
  | .road e => "graph error: " ++ e.message

end Wayfinder
