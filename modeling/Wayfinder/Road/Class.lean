import Wayfinder.Text.Blank

/-!
# Road classes

Every road feature carries one of fourteen classes, from motorways down to steps. A class is named
in lowercase with underscores; reading a name ignores blanks around it.
-/

namespace Wayfinder

/-- The kind of a road, which decides who may use it and how fast. -/
inductive RoadClass where
  | motorway
  | trunk
  | primary
  | secondary
  | tertiary
  | unclassified
  | residential
  | livingStreet
  | service
  | track
  | pedestrian
  | footway
  | path
  | steps
deriving Repr, DecidableEq, Inhabited

namespace RoadClass

/-- All classes, in their declared order. -/
def all : List RoadClass :=
  [.motorway, .trunk, .primary, .secondary, .tertiary, .unclassified, .residential, .livingStreet,
   .service, .track, .pedestrian, .footway, .path, .steps]

/-- The name of a class. -/
def name : RoadClass → String
  | .motorway => "motorway"
  | .trunk => "trunk"
  | .primary => "primary"
  | .secondary => "secondary"
  | .tertiary => "tertiary"
  | .unclassified => "unclassified"
  | .residential => "residential"
  | .livingStreet => "living_street"
  | .service => "service"
  | .track => "track"
  | .pedestrian => "pedestrian"
  | .footway => "footway"
  | .path => "path"
  | .steps => "steps"

/-- The class named `s` after trimming blanks; the trimmed text when there is none. -/
def parse (s : String) : Except String RoadClass :=
  let t := Text.trimBlank s
  match all.find? fun c => c.name = t with
  | some c => .ok c
  | none => .error t

end RoadClass

end Wayfinder
