/-!
# Outcomes of route planning

Every request to plan a route ends in one of twelve outcomes. Two of them deliver a route; most
failures have a message identifier under which a user interface finds its text.
-/

namespace Wayfinder

/-- How a request to plan a route ended. -/
inductive Outcome where
  | noError
  | cancelled
  | noCurrentPosition
  | startPointNotFound
  | endPointNotFound
  | pointsInDifferentRegion
  | routeNotFound
  | routeFileNotExist
  | inconsistentRegionAndRoute
  | needMoreMaps
  | fileTooOld
  | internalError
deriving Repr, DecidableEq, Inhabited

namespace Outcome

/-- All outcomes, in their declared order. -/
def all : List Outcome :=
  [.noError, .cancelled, .noCurrentPosition, .startPointNotFound, .endPointNotFound,
   .pointsInDifferentRegion, .routeNotFound, .routeFileNotExist, .inconsistentRegionAndRoute,
   .needMoreMaps, .fileTooOld, .internalError]

/-- The name of an outcome. -/
def name : Outcome → String
  | .noError => "no_error"
  | .cancelled => "cancelled"
  | .noCurrentPosition => "no_current_position"
  | .startPointNotFound => "start_point_not_found"
  | .endPointNotFound => "end_point_not_found"
  | .pointsInDifferentRegion => "points_in_different_region"
  | .routeNotFound => "route_not_found"
  | .routeFileNotExist => "route_file_not_exist"
  | .inconsistentRegionAndRoute => "inconsistent_region_and_route"
  | .needMoreMaps => "need_more_maps"
  | .fileTooOld => "file_too_old"
  | .internalError => "internal_error"

/-- The outcome of a name. -/
def ofName? (s : String) : Option Outcome :=
  all.find? fun o => o.name = s

/-- Whether the outcome delivers a route: success, or success with maps still to download. -/
def hasRoute : Outcome → Bool
  | .noError | .needMoreMaps => true
  | _ => false

/-- The identifier of the user-facing message of a failure. -/
def messageId : Outcome → Option String
  | .noCurrentPosition => some "routing_failed_unknown_my_position"
  | .inconsistentRegionAndRoute | .routeFileNotExist => some "routing_failed_has_no_routing_file"
  | .startPointNotFound => some "routing_failed_start_point_not_found"
  | .endPointNotFound => some "routing_failed_dst_point_not_found"
  | .pointsInDifferentRegion => some "routing_failed_cross_mwm_building"
  | .routeNotFound => some "routing_failed_route_not_found"
  | .internalError => some "routing_failed_internal_error"
  | _ => none

end Outcome

end Wayfinder
