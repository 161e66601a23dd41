import Wayfinder.Outcome
import Wayfinder.Route.Basic

/-!
# What a routing request produces

A request ends in an outcome, with a route when the outcome has one, the names of map files the
trip still needs, the number of search steps taken and, for routers with a feature cache, the
cache's lookup and miss counts.
-/

namespace Wayfinder

/-- The result of one routing request. -/
structure Plan where
  outcome : Outcome
  route : Option Route := none
  absent : List String := []
  visited : Nat := 0
  cache : Option (Nat × Nat) := none

/-- A request that ended without a route. -/
def Plan.failure (o : Outcome) : Plan := { outcome := o }

/-- A route is delivered only with at least two points. -/
def Route.requireValid (r : Route) : Except Outcome Route :=
  if r.valid then .ok r else .error .routeNotFound

end Wayfinder
