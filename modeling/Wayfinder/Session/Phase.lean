/-!
# Phases of a routing session

A session starts idle. A build request makes it `building`; a route delivered makes it `ready`, a
failure takes it back to `idle`. Following the ready route makes it `navigating`; leaving the
route starts a rebuild (`rebuilding`), after which it navigates again, on the new route or, when
the rebuild failed, on the old one. Closing routing returns it to `idle` from anywhere, and a shut
down session stays `closed`.
-/

namespace Wayfinder

/-- Where a session is in its build and follow cycle. -/
inductive Phase where
  | idle
  | building
  | ready
  | navigating
  | rebuilding
  | closed
deriving Repr, DecidableEq, Inhabited

namespace Phase

/-- The name of a phase. -/
def name : Phase → String
  | .idle => "idle"
  | .building => "building"
  | .ready => "ready"
  | .navigating => "navigating"
  | .rebuilding => "rebuilding"
  | .closed => "closed"

/-- The phases in which a route is held and fixes are matched against it. -/
def hasRoute : Phase → Bool
  | .ready | .navigating | .rebuilding => true
  | _ => false

end Phase

/-- Whether a build starts a trip or repairs the one being navigated. -/
inductive BuildKind where
  | fresh
  | rebuild
deriving Repr, DecidableEq, Inhabited

namespace BuildKind

/-- The phase while a build of this kind runs. -/
def running : BuildKind → Phase
  | .fresh => .building
  | .rebuild => .rebuilding

/-- The phase after a build of this kind ended without a new route. -/
def fallback : BuildKind → Phase
  | .fresh => .idle
  | .rebuild => .navigating

end BuildKind

end Wayfinder
