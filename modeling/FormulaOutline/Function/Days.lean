import FormulaOutline.Function.Slot

/-!
# Days between dates

`Days(from, to)` is the number of days from one date to another.
-/

namespace FormulaOutline.Functions

def days : Function where
  name := "Days"
  summary := "Number of days between two dates"
  parameters := [⟨"from", .date⟩, ⟨"to", .date⟩]
  call args _ next :=
    withPair "Days" "from" "to" Value.asDate args fun ends =>
      orFail ends next fun
        | some (start, stop) => next (.ok (.ofInt (stop.dayNumber - start.dayNumber)))
        | none => next (.ok .missingArguments)
  suggestions := Suggestion.pairwise "Days" ("from", .date) ("to", .date)
  autocomplete := some (.template "Days" ["from", "to"])

end FormulaOutline.Functions
