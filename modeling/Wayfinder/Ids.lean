/-!
# Identifiers

Regions, road features, junction nodes and edges are numbered by 32-bit words. The largest word is
reserved as the invalid identifier and is the default one. An identifier is written with its kind,
as in `RegionId(7)`; the same words appear in messages.
-/

namespace Wayfinder

/-- The kinds of numbered things. -/
inductive IdKind where
  | region
  | feature
  | node
  | edge
deriving Repr, DecidableEq

/-- The reserved invalid identifier, the largest 32-bit word. -/
def invalidId : Nat := Nat.pow 2 32 - 1

/-- The refusal of a number that does not fit in 32 bits. -/
structure IdRangeError where
deriving Repr, DecidableEq

/-- The text of an `IdRangeError`. -/
def IdRangeError.message (_ : IdRangeError) : String :=
  "number too large to fit in target type"

namespace IdKind

/-- The name of a kind as it is written before the number. -/
def label : IdKind → String
  | .region => "RegionId"
  | .feature => "FeatureId"
  | .node => "NodeId"
  | .edge => "EdgeId"

/-- An identifier of this kind written with its kind, as in `RegionId(7)`. -/
def text (k : IdKind) (n : Nat) : String :=
  k.label ++ "(" ++ toString n ++ ")"

/-- Accepts `n` as an identifier when it fits in 32 bits. -/
def ofIndex? (_ : IdKind) (n : Nat) : Except IdRangeError Nat :=
  if n < Nat.pow 2 32 then .ok n else .error {}

end IdKind

/-- Whether an identifier is not the reserved invalid one. -/
def idIsValid (n : Nat) : Bool := n != invalidId

end Wayfinder
