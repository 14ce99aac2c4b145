import FormulaOutline.Provider.Encoding

/-!
# Forecasts of a weather service

The service answers with series of values, one for each day and one for each hour.
-/

namespace FormulaOutline

open Calendar

/-- Values of several days; each series has the days in the same order. -/
structure DailySeries where
  time : List String
  min : List (Option Float)
  max : List (Option Float)
  mean : List (Option Float)
  code : List (Option Nat)

/-- Temperatures of several hours. -/
structure HourlySeries where
  time : List String
  temperature : List (Option Float)

structure Forecast where
  daily : DailySeries
  hourly : Option HourlySeries

/-- A series of values, some of which may be missing. -/
def seriesOfJson? {α : Type} (d : Json.Decoder α) : Json.Decoder (List (Option α)) :=
  Json.asList? (Json.nullable d)

def timesOfJson? : Json.Decoder (List String) := Json.asList? Json.asString?

def DailySeries.ofJson? : Json.Decoder DailySeries := fun j => do
  let fields ← j.fields? 5
  let time ← fields.required 0 "time" timesOfJson?
  let min ← fields.required 1 "temperature_2m_min" (seriesOfJson? Json.asFloat?)
  let max ← fields.required 2 "temperature_2m_max" (seriesOfJson? Json.asFloat?)
  let mean ← fields.withDefault 3 "temperature_2m_mean" [] (seriesOfJson? Json.asFloat?)
  let code ← fields.required 4 "weather_code" (seriesOfJson? asWeatherCode?)
  some ⟨time, min, max, mean, code⟩

def HourlySeries.ofJson? : Json.Decoder HourlySeries := fun j => do
  let fields ← j.fields? 2
  let time ← fields.required 0 "time" timesOfJson?
  let temperature ← fields.required 1 "temperature_2m" (seriesOfJson? Json.asFloat?)
  some ⟨time, temperature⟩

/-- The temperatures of the hours of a day. -/
def HourlySeries.ofDay (h : HourlySeries) (day : String) : List Float :=
  (h.time.zip h.temperature).filterMap fun (time, temperature) =>
    if day.toList.isPrefixOf time.toList then temperature else none

namespace Forecast

def ofJson? : Json.Decoder Forecast := fun j => do
  let fields ← j.fields? 2
  let daily ← fields.required 0 "daily" DailySeries.ofJson?
  let hourly ← fields.withDefault 1 "hourly" none (Json.nullable HourlySeries.ofJson?)
  some ⟨daily, hourly⟩

/-- The weather of a day. Without a mean it is taken to lie between the extremes, without a code
the sky is taken to be clear. -/
def report (f : Forecast) (provider : String) (date : Date) : Except ProviderError WeatherReport :=
  let day := date.iso
  let invalid (reason : String) : ProviderError :=
    .invalidResponse provider (reason ++ " for " ++ day)
  match f.daily.time.idxOf? day with
  | none => .error (invalid "No daily entry")
  | some i =>
      match f.daily.min[i]?.join, f.daily.max[i]?.join with
      | some min, some max =>
          .ok
            { date, min, max
              mean := f.daily.mean[i]?.join.getD ((min + max) / 2)
              code := f.daily.code[i]?.join.getD 0
              hourly := (f.hourly.map (·.ofDay day)).getD [] }
      | _, _ => .error (invalid "Missing temperatures")

end Forecast

end FormulaOutline
