import Wayfinder.Text.Blank
import Wayfinder.Text.Quoted

/-!
# Travel modes

A route is planned for driving or for walking. A mode is named `vehicle` or `pedestrian`; reading a
name ignores blanks around it, and any other name is refused with the trimmed text quoted in the
message.
-/

namespace Wayfinder

/-- The two ways of travelling that routes are planned for. -/
inductive Mode where
  | vehicle
  | pedestrian
deriving Repr, DecidableEq, Inhabited

/-- The refusal of a name that is no mode; `text` is the name without surrounding blanks. -/
structure UnknownMode where
  text : String
deriving Repr, DecidableEq

/-- The text of an `UnknownMode`. -/
def UnknownMode.message (e : UnknownMode) : String :=
  "unknown router type " ++ Text.quoted e.text

namespace Mode

/-- The name of a mode. -/
def name : Mode → String
  | .vehicle => "vehicle"
  | .pedestrian => "pedestrian"

/-- Reads a mode name, ignoring blanks around it. -/
def parse (s : String) : Except UnknownMode Mode :=
  let t := Text.trimBlank s
  if t = "vehicle" then .ok .vehicle
  else if t = "pedestrian" then .ok .pedestrian
  else .error ⟨t⟩

end Mode

end Wayfinder
