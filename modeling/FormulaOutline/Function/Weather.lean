import FormulaOutline.Function.Slot

/-!
# Weather

`Weather(location, date)` is the weather of a day. With or without a date, each scope below the call
that has a date gets the weather of its day, if the call's date does not exclude it.
-/

namespace FormulaOutline.Functions

open Calendar Geo

/-- A day together with what the provider said about it. -/
abbrev DayReport := Date × Except ProviderError Value

/-- Puts a day into a list of days in their order, unless it is there. -/
def insertDay (d : Date) : List Date → List Date
  | [] => [d]
  | e :: rest =>
      if d.dayNumber < e.dayNumber then d :: e :: rest
      else if d = e then e :: rest
      else e :: insertDay d rest

/-- Asks for the weather of days, one after the other. -/
def reportDays (location : Location) (days : List Date) (next : List DayReport → Process) :
    Process :=
  days.foldr
    (fun day rest reports =>
      .consult (.weather day location) fun answer =>
        rest (reports ++ [(day, answer.map WeatherReport.toValue)]))
    next []

/-- The report of a day, if it was asked for. -/
def reportOf? (reports : List DayReport) (day : Date) : Option (Except ProviderError Value) :=
  (reports.find? (·.1 = day)).map Prod.snd

/-- The report of a day, if the provider had one. -/
def goodReport? (reports : List DayReport) (day : Date) : Option Value :=
  (reportOf? reports day).bind Except.toOption

/-- The date of a scope, if it is the wanted one. -/
def datedScope? (t : ScopeTree) (only : Option Date) (id : ScopeId) : Option (ScopeId × Date) := do
  let v ← t.typedValue? id
  let day ← v.asDate
  if only.all (· = day) then some (id, day) else none

/-- Goes on with the scopes below a scope that have a date, after waiting for all scopes below. -/
def withDatedScopes (scope : ScopeId) (only : Option Date)
    (next : List (ScopeId × Date) → Process) : Process :=
  .look fun t =>
    let below := (t.below false scope).tail
    .gather (below.map fun id => .await id fun _ => .done .undefined) fun _ =>
      .look fun t => next (below.filterMap (datedScope? t only))

/-- Publishes the report of its day on each scope that has one. -/
def annotate (dated : List (ScopeId × Date)) (reports : List DayReport) (next : Process) :
    Process :=
  dated.foldr
    (fun (id, day) rest =>
      match goodReport? reports day with
      | some report => .publish id "weather" report rest
      | none => rest)
    next

/-- The weather function for a directory of providers that has a weather provider or not. -/
def weather (configured : Bool) : Function where
  name := "Weather"
  summary := "Daily weather for a place, attached to every dated bullet below"
  parameters := [⟨"location", .location⟩, ⟨"date", .date⟩]
  call args scope next :=
    withSlot args "location" 0 fun
      | none => next (.ok .missingArguments)
      | some location =>
          orFail (expect "Weather" "location" Value.asLocation location) next fun location =>
            withSlot args "date" 1 fun date =>
              orFail (expectOptional "Weather" "date" Value.asDate date) next fun date =>
                if configured then
                  withDatedScopes scope date fun dated =>
                    let days := (dated.map Prod.snd ++ date.toList).foldr insertDay []
                    reportDays location days fun reports =>
                      annotate dated reports
                        (match date with
                        | some day =>
                            match reportOf? reports day with
                            | some (.ok report) =>
                                .publish scope "weather" report (next (.ok report))
                            | some (.error e) => next (.error (.provider e))
                            | none => next (.ok .undefined)
                        | none =>
                            next (.ok (.ofInt
                              (dated.countP fun (_, d) => (goodReport? reports d).isSome))))
                else next (.error (.provider (.notConfigured ProviderKind.weather.name)))
  suggestions parameters :=
    Suggestion.pairwise "Weather" ("location", .location) ("date", .date) parameters ++
      Suggestion.single "Weather" "location" .location parameters
  autocomplete := some (.template "Weather" ["location", "date"])

end FormulaOutline.Functions
