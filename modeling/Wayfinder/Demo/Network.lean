import Wayfinder.Road.Table
import Wayfinder.Index.Basic
import Wayfinder.Router.Atlas
import Wayfinder.Road.Graph.Basic

/-!
# The demonstration map

Two downloaded regions side by side, westside and eastside, joined by a primary road that crosses
the border at `(30.69, -88.05)`, and a northside region above both that was never downloaded:

```
 lat 30.78 +-----------------------------+
           |        northside            |  not downloaded
 lat 30.72 +--------------+--------------+
           |   westside   |   eastside   |
 lat 30.66 +--------------+--------------+
       lon -88.10      -88.05         -88.00
```

Both downloaded regions carry a routing index that may cross regions.
-/

namespace Wayfinder

namespace Demo

/-- Map and routing data version of the downloaded files. -/
def mapVersion : Nat := 231015

/-- The streets, as a feature table. -/
def streets : String :=
  "region,feature,class,oneway,min_scale,maxspeed_kmh,points\n" ++
  "1,1,residential,false,12,,30.67 -88.09;30.67 -88.08;30.67 -88.07;30.67 -88.06\n" ++
  "1,2,residential,false,12,,30.71 -88.09;30.71 -88.08;30.71 -88.07;30.71 -88.06\n" ++
  "1,3,primary,false,8,60,30.69 -88.09;30.69 -88.08;30.69 -88.07;30.69 -88.06;30.69 -88.05\n" ++
  "1,4,residential,false,12,,30.67 -88.09;30.69 -88.09;30.71 -88.09\n" ++
  "1,5,residential,false,12,,30.67 -88.07;30.69 -88.07;30.71 -88.07\n" ++
  "1,6,tertiary,true,10,,30.67 -88.06;30.69 -88.06;30.71 -88.06\n" ++
  "2,10,primary,false,8,60,30.69 -88.05;30.69 -88.04;30.69 -88.03;30.69 -88.02\n" ++
  "2,11,residential,false,12,,30.67 -88.03;30.69 -88.03;30.71 -88.03\n" ++
  "2,12,residential,false,12,,30.71 -88.04;30.71 -88.03;30.71 -88.02\n" ++
  "2,13,footway,false,16,,30.69 -88.02;30.70 -88.02;30.71 -88.02\n"

/-- The three regions. -/
def regions : Regions :=
  ⟨[⟨"westside", 1, ⟨30.66, -88.10⟩, ⟨30.72, -88.05⟩⟩,
    ⟨"eastside", 2, ⟨30.66, -88.05⟩, ⟨30.72, -88.00⟩⟩,
    ⟨"northside", 3, ⟨30.72, -88.10⟩, ⟨30.78, -88.00⟩⟩]⟩

/-- The downloaded files. -/
def downloaded : List (String × Nat) := [("westside", 1), ("eastside", 2)]

/-- The summary line of a routing index. -/
def indexLine (name : String) (x : RoutingIndex) : String :=
  "  " ++ name ++ String.ofList (List.replicate (9 - name.length) ' ') ++ ": " ++
    toString x.nodeCount ++ " nodes, " ++ toString x.edgeCount ++ " edges, " ++
    toString x.shortcutCount ++ " shortcuts"

/-- Loads the streets and indexes both downloaded regions: the map, with a summary line per
index. -/
def network : Except String (Atlas × List String) := do
  let store ← (Store.ofTable streets).mapError RoadError.message
  let mut catalog := Catalog.empty
  let mut lines := []
  for (name, region) in downloaded do
    let x ← (RoutingIndex.build store region true defaultReadScale).mapError RouterError.message
    lines := lines ++ [indexLine name x]
    catalog := catalog.insert ⟨name, region, mapVersion, some ⟨mapVersion, minRoutingFormat, x⟩⟩
  return (⟨store, regions, catalog⟩, lines)

end Demo

end Wayfinder
