import FormulaOutline.Provider.Source

/-!
# Fixed providers

Providers that always give the same answer to the same request, without asking anyone: for trials.
-/

namespace FormulaOutline.Fixed

open Calendar Geo

/-- The error for something that a provider does not know. -/
def notFound (id what : String) : ProviderError := .requestFailed id 404 (what ++ " not found")

/-! ## Routes -/

/-- The speed of routes in kilometres an hour, unless another one is chosen. -/
def usualSpeed : Float := 60

/-- The straight way between two locations at a given speed. -/
def straight (speed : Float) (start stop : Location) : Route :=
  let length := distance start stop
  ⟨length, length / speed * 60, [start, stop]⟩

def routing (speed : Float) : RouteSource where
  id := "mock-routing"
  answer ends := .ok (straight speed ends.1 ends.2)
  key := routeKey "mock-routing"
  calls := 0
  failing := false
  cache := none

/-! ## Places -/

/-- A table of places; of several with the same id the last one counts. -/
def places (table : List Place) : PlaceSource where
  id := "mock-places"
  answer id :=
    match table.reverse.find? (·.id == id) with
    | some place => .ok place
    | none => .error (notFound "mock-places" id)
  key := placeKey "mock-places"
  calls := 0
  failing := false
  cache := none

/-! ## Weather -/

/-- A full turn, `2 π`. -/
def turn : Float := 6.283185307179586

/-- The mean temperature of a day: lower towards the poles, and in winter. -/
def meanTemperature (day : Date) (location : Location) : Float :=
  let season := (Number.ofNat day.dayOfYear / 365 * turn).cos
  Number.roundHalfAway (25 - location.lat.abs * 0.4 - season * 8)

/-- The weather of a day as it follows from the day and the latitude. -/
def weatherOf (day : Date) (location : Location) : WeatherReport :=
  let mean := meanTemperature day location
  ⟨day, mean - 5, mean + 5, mean, day.day % 4, []⟩

def weather : WeatherSource where
  id := "mock-weather"
  answer day := .ok (weatherOf day.1 day.2)
  key := weatherKey "mock-weather"
  calls := 0
  failing := false
  cache := none

/-! ## Flights -/

/-- A flight between two airports at fixed times. -/
def flightBetween (number start stop : String) : FlightStatus :=
  ⟨number, ⟨start, "08:00"⟩, ⟨stop, "10:30"⟩, some "scheduled"⟩

/-- A table of flights; of several with the same number the last one counts. -/
def flights (table : List FlightStatus) : FlightSource where
  id := "mock-flight"
  answer flight :=
    match table.reverse.find? (·.number == flight.1) with
    | some status => .ok status
    | none => .error (notFound "mock-flight" flight.1)
  key := flightKey "mock-flight"
  calls := 0
  failing := false
  cache := none

end FormulaOutline.Fixed
