import FormulaOutline.Provider.Error
import FormulaOutline.Value.Basic

/-!
# Reports of providers

What providers are asked for and what they answer.

* `Query` is a question to a provider, `Query.Report` the type of its answer.
* Each report has a value in which formulas see it.
-/

namespace FormulaOutline

open Calendar Geo

/-! ## Routes -/

/-- A way between two locations, with its course. -/
structure Route where
  distanceKm : Float
  durationMin : Float
  geometry : List Location

namespace Route

/-- Distance with one decimal place, duration in whole minutes. -/
def summaryFields (r : Route) : List (String × Value) :=
  [("distance_km", .number (Number.roundHalfAway (r.distanceKm * 10) / 10)),
   ("duration_min", .number (Number.roundHalfAway r.durationMin))]

def summary (r : Route) : Value := .ofFields r.summaryFields

def toValue (r : Route) : Value :=
  .ofFields (r.summaryFields ++ [("geometry", .list (r.geometry.map .location))])

end Route

/-! ## Places -/

structure Place where
  id : String
  name : String
  address : Option String
  location : Location

def Place.toValue (p : Place) : Value :=
  .ofFields ([("id", .text p.id), ("name", .text p.name)] ++
    (p.address.toList.map fun a => ("address", .text a)) ++
    [("location", .location p.location)])

/-! ## Weather -/

/-- The weather of a day, temperatures in degrees Celsius. -/
structure WeatherReport where
  date : Date
  min : Float
  max : Float
  mean : Float
  code : Nat
  hourly : List Float

def WeatherReport.toValue (w : WeatherReport) : Value :=
  let hourly : List (String × Value) :=
    if w.hourly.isEmpty then [] else [("hourly", .list (w.hourly.map .number))]
  .ofFields ([("min", .number w.min), ("max", .number w.max), ("mean", .number w.mean),
    ("code", .ofInt w.code), ("date", .date w.date)] ++ hourly)

/-! ## Flights -/

/-- One end of a flight; the time is as the provider gives it. -/
structure FlightLeg where
  airport : String
  scheduled : String

structure FlightStatus where
  number : String
  departure : FlightLeg
  arrival : FlightLeg
  status : Option String

def FlightStatus.toValue (f : FlightStatus) : Value :=
  .ofFields ([("flight", .flightNumber f.number), ("from", .text f.departure.airport),
    ("departs", .text f.departure.scheduled), ("to", .text f.arrival.airport),
    ("arrives", .text f.arrival.scheduled)] ++ (f.status.toList.map fun s => ("status", .text s)))

/-! ## Queries -/

/-- The kinds of providers. -/
inductive ProviderKind
  | routing
  | places
  | weather
  | flight
deriving DecidableEq, Repr

def ProviderKind.name : ProviderKind → String
  | .routing => "routing"
  | .places => "places"
  | .weather => "weather"
  | .flight => "flight"

def ProviderKind.all : List ProviderKind := [.routing, .places, .weather, .flight]

/-- A question to a provider. -/
inductive Query
  | route (start stop : Location)
  | place (id : String)
  | weather (date : Date) (location : Location)
  | flight (number : String) (date : Option Date)

namespace Query

def kind : Query → ProviderKind
  | route .. => .routing
  | place _ => .places
  | weather .. => .weather
  | flight .. => .flight

abbrev Report : Query → Type
  | route .. => Route
  | place _ => Place
  | weather .. => WeatherReport
  | flight .. => FlightStatus

abbrev Answer (q : Query) : Type := Except ProviderError q.Report

end Query

end FormulaOutline
