/-!
# Positions on roads

A position is one segment of one road feature, travelled in one direction. Its segment `seg` joins
points `seg` and `seg + 1` of the feature; travelled forward it starts at the first of them,
backward at the second. Positions are ordered by region, feature, segment and then direction, with
backward first.
-/

namespace Wayfinder

/-- A directed segment of a road feature. -/
structure Position where
  region : Nat
  feature : Nat
  seg : Nat
  forward : Bool
deriving Repr, DecidableEq, Inhabited, BEq, Hashable

namespace Position

/-- The same segment travelled the other way. -/
def reversed (p : Position) : Position := { p with forward := !p.forward }

/-- Index of the point where travel along the position starts. -/
def startIndex (p : Position) : Nat := if p.forward then p.seg else p.seg + 1

/-- Index of the point where travel along the position ends. -/
def endIndex (p : Position) : Nat := if p.forward then p.seg + 1 else p.seg

/-- The order of positions: region, feature, segment, then backward before forward. -/
def cmp (a b : Position) : Ordering :=
  (compare a.region b.region).then <| (compare a.feature b.feature).then <|
    (compare a.seg b.seg).then (compare a.forward b.forward)

end Position

end Wayfinder
