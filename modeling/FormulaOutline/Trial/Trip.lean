import FormulaOutline.Calendar.Date
import FormulaOutline.Geo.Location

/-!
# Trips

Outlines of trips, as examples to try things on.
-/

namespace FormulaOutline.Trip

open Calendar Geo

/-- Two places and a trip between them. -/
def sample : String :=
  String.join
    ["- [paris] position: 48.8566,2.3522\n",
     "- [berlin] position: 52.5200,13.4050\n",
     "- [trip] Trip\n",
     "  - [leg] \x7bDistance(from: #[paris], to: #[berlin])\x7d\n",
     "  - [start] 2026-05-01\n",
     "  - [end] 2026-05-08\n"]

/-- A location with four decimal places. -/
def locationText (l : Location) : String := Number.places 4 l.lat ++ "," ++ Number.places 4 l.lng

def stopLines (number : Nat) (location : Location) (day : Date) : String :=
  let n := toString number
  String.join
    ["  - [stop" ++ n ++ "] Stop " ++ n ++ "\n",
     "    - [pos" ++ n ++ "] position: " ++ locationText location ++ "\n",
     "    - [date" ++ n ++ "] date: " ++ day.iso ++ "\n"]

def outline (stops : List (Location × Date)) : String :=
  "- [trip] Trip\n" ++
    String.join (stops.zipIdx.map fun ((location, day), i) => stopLines i location day)

end FormulaOutline.Trip
