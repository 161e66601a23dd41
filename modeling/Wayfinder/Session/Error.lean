import Wayfinder.Session.Phase

/-!
# Refused session calls

A call is refused while a build is in flight when it would change the router under it, when the
session is not in the phase the call needs, once the session is shut down, and when the session
is configured with values it cannot run with.
-/

namespace Wayfinder

/-- Why a session call was refused. -/
inductive SessionError where
  | buildInFlight
  | invalidState (op : String) (phase : Phase)
  | closed
  | config (msg : String)
deriving Repr, DecidableEq

/-- The text of a refusal. -/
def SessionError.message : SessionError → String
  | .buildInFlight => "a route build is in flight"
  | .invalidState op phase => op ++ " is not allowed in state " ++ phase.name
  | .closed => "the routing session has been shut down"
  | .config msg => "session configuration error: " ++ msg

end Wayfinder
