import FormulaOutline.Function.Slot

/-!
# Places

`Place(id)` is the location of a place that a provider knows; what else is known of it is published
on the scope.
-/

namespace FormulaOutline.Functions

def place : Function where
  name := "Place"
  summary := "Look up a place and use its coordinates"
  parameters := [⟨"id", .text⟩]
  call args scope next :=
    withSlot args "id" 0 fun
      | none => next (.ok .missingArguments)
      | some id =>
          let wanted := String.ofList (Text.trim id.display.toList)
          if wanted.isEmpty then next (.ok .missingArguments)
          else
            withReport (.place wanted) next fun place =>
              .publish scope "place" (Place.toValue place) (next (.ok (.location place.location)))
  suggestions _ := []
  autocomplete := some (.template "Place" ["id"])

end FormulaOutline.Functions
