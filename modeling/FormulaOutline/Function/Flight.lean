import FormulaOutline.Function.Slot
import FormulaOutline.Text.Property.Uppercase

/-!
# Flights

`Flight(number, date)` is the departure and arrival of a flight, perhaps on a given day.
-/

namespace FormulaOutline.Functions

open Text

/-- The flight number that a value is, or that its text gives in capital letters. -/
def flightNumber? : Value → Option String
  | .flightNumber n => some n
  | .text t =>
      let trimmed := trim t.toList
      if trimmed.isEmpty then none else some (String.ofList (trimmed.flatMap upperOf))
  | _ => none

def flight : Function where
  name := "Flight"
  summary := "Departure and arrival of a flight"
  parameters := [⟨"number", .flightNumber⟩, ⟨"date", .date⟩]
  call args scope next :=
    withSlot args "number" 0 fun
      | none => next (.ok .missingArguments)
      | some number =>
          orFail (expect "Flight" "number" flightNumber? number) next fun number =>
            withSlot args "date" 1 fun date =>
              orFail (expectOptional "Flight" "date" Value.asDate date) next fun date =>
                withReport (.flight number date) next fun status =>
                  let value := FlightStatus.toValue status
                  .publish scope "flight" value (next (.ok value))
  suggestions parameters :=
    Suggestion.pairwise "Flight" ("number", .flightNumber) ("date", .date) parameters ++
      Suggestion.single "Flight" "number" .flightNumber parameters
  autocomplete := some (.template "Flight" ["number", "date"])

end FormulaOutline.Functions
