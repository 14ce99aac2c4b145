import FormulaOutline.Provider.Report
import FormulaOutline.Value.Encoding

/-!
# Reports as JSON

The form in which services send places, weather and flights.
-/

namespace FormulaOutline

open Calendar Geo

/-- Weather codes have 16 bits. -/
def asWeatherCode? : Json.Decoder Nat := Json.asNat? (Nat.pow 2 16)

def Place.ofJson? : Json.Decoder Place := fun j => do
  let fields ← j.fields? 4
  let id ← fields.required 0 "id" Json.asString?
  let name ← fields.required 1 "name" Json.asString?
  let address ← fields.withDefault 2 "address" none (Json.nullable Json.asString?)
  let location ← fields.required 3 "location" Location.ofJson?
  some ⟨id, name, address, location⟩

def WeatherReport.ofJson? : Json.Decoder WeatherReport := fun j => do
  let fields ← j.fields? 6
  let date ← fields.required 0 "date" Date.ofJson?
  let min ← fields.required 1 "min_c" Json.asFloat?
  let max ← fields.required 2 "max_c" Json.asFloat?
  let mean ← fields.required 3 "mean_c" Json.asFloat?
  let code ← fields.required 4 "code" asWeatherCode?
  let hourly ← fields.withDefault 5 "hourly_c" [] (Json.asList? Json.asFloat?)
  some ⟨date, min, max, mean, code, hourly⟩

def FlightLeg.ofJson? : Json.Decoder FlightLeg := fun j => do
  let fields ← j.fields? 2
  let airport ← fields.required 0 "airport" Json.asString?
  let scheduled ← fields.required 1 "scheduled" Json.asString?
  some ⟨airport, scheduled⟩

def FlightStatus.ofJson? : Json.Decoder FlightStatus := fun j => do
  let fields ← j.fields? 4
  let number ← fields.required 0 "flight_number" Json.asString?
  let departure ← fields.required 1 "departure" FlightLeg.ofJson?
  let arrival ← fields.required 2 "arrival" FlightLeg.ofJson?
  let status ← fields.withDefault 3 "status" none (Json.nullable Json.asString?)
  some ⟨number, departure, arrival, status⟩

end FormulaOutline
