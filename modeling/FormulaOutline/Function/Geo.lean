import FormulaOutline.Function.Slot

/-!
# Pairs of locations

* `Distance(from, to)` is the length of the great circle between two locations.
* `Route(from, to)` is a way between them; the whole way is also published on the scope.
-/

namespace FormulaOutline.Functions

open Geo

def endpointParameters : List ParameterSpec := [⟨"from", .location⟩, ⟨"to", .location⟩]

def betweenLocations (function : String) : List Parameter → List Suggestion :=
  Suggestion.pairwise function ("from", .location) ("to", .location)

def distance : Function where
  name := "Distance"
  summary := "Straight-line distance in kilometres"
  parameters := endpointParameters
  call args _ next :=
    withPair "Distance" "from" "to" Value.asLocation args fun ends =>
      orFail ends next fun
        | some (start, stop) => next (.ok (.number (Geo.distance start stop)))
        | none => next (.ok .missingArguments)
  suggestions := betweenLocations "Distance"
  autocomplete := some (.template "Distance" ["from", "to"])

def route : Function where
  name := "Route"
  summary := "Travel distance and duration between two places"
  parameters := endpointParameters
  call args scope next :=
    withPair "Route" "from" "to" Value.asLocation args fun ends =>
      orFail ends next fun
        | some (start, stop) =>
            withReport (.route start stop) next fun route =>
              .publish scope "route" (Route.toValue route) (next (.ok (Route.summary route)))
        | none => next (.ok .missingArguments)
  suggestions := betweenLocations "Route"
  autocomplete := some (.template "Route" ["from", "to"])

end FormulaOutline.Functions
