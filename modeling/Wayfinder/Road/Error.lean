import Wayfinder.Ids
import Wayfinder.Text.Quoted

/-!
# Errors of road data

Reading road data and decoding a road can fail; each failure names its cause, and `message` gives
its text, with identifiers written with their kind.
-/

namespace Wayfinder

/-- Why road data could not be read or a road not be decoded. -/
inductive RoadError where
  /-- The region has no feature of that number. -/
  | featureNotFound (region feature : Nat)
  /-- A feature has fewer than two points. -/
  | degenerate (feature points : Nat)
  /-- A position of a path names a feature whose geometry is missing. -/
  | disconnected (feature : Nat)
  /-- A class name that is not one of the fourteen. -/
  | unknownClass (text : String)
  /-- A malformed row of a road table. -/
  | parse (text : String)
  /-- A failure to read a file. -/
  | io (text : String)
deriving Repr, DecidableEq

/-- The text of a `RoadError`. -/
def RoadError.message : RoadError → String
  | .featureNotFound r f =>
    "feature " ++ IdKind.feature.text f ++ " not found in region " ++ IdKind.region.text r
  | .degenerate f n =>
    "feature " ++ IdKind.feature.text f ++ " has " ++ toString n ++
      " point(s); a road needs at least 2"
  | .disconnected f =>
    "path is disconnected: geometry of " ++ IdKind.feature.text f ++ " could not be decoded"
  | .unknownClass t => "unknown road class " ++ Text.quoted t
  | .parse t => "parse error: " ++ t
  | .io t => "I/O error: " ++ t

end Wayfinder
