import FormulaOutline.Http.Client
import FormulaOutline.Number.Layout
import FormulaOutline.Provider.Service.Forecast
import FormulaOutline.Provider.Service.Route

/-!
# Services

The services on the network that answer the queries of each kind.

* `Query.path` and `Query.parameters` say how a query is put to its service, `Query.fetch` puts it.
* `ProviderSettings.client?` is the client of a service that is configured.
-/

namespace FormulaOutline

open Geo Http

/-- The name of the service for a kind of queries. -/
def ProviderKind.service : ProviderKind → String
  | .routing => "osrm"
  | .places => "places"
  | .weather => "open-meteo"
  | .flight => "flight"

/-- The profile that routes are asked for, if no other one is chosen. -/
def defaultProfile : String := "driving"

/-- A location in a path, its longitude first. -/
def pathLocation (l : Location) : String := Number.plain l.lng ++ "," ++ Number.plain l.lat

def pathSegment (s : String) : String := String.ofList (Text.encodeSegment s.toList)

namespace Query

def path (profile : String) : Query → String
  | route start stop =>
      "route/v1/" ++ profile ++ "/" ++ pathLocation start ++ ";" ++ pathLocation stop
  | place id => "places/" ++ pathSegment id
  | weather .. => "v1/forecast"
  | flight number _ => "flights/" ++ pathSegment number

def parameters : Query → List (String × String)
  | route .. => [("overview", "full"), ("geometries", "geojson")]
  | place _ => []
  | weather date location =>
      [("latitude", Number.plain location.lat), ("longitude", Number.plain location.lng),
       ("daily", "temperature_2m_min,temperature_2m_max,temperature_2m_mean,weather_code"),
       ("hourly", "temperature_2m"), ("start_date", date.iso), ("end_date", date.iso),
       ("timezone", "UTC")]
  | flight _ date => date.toList.map fun d => ("date", d.iso)

/-- Asks the service of a query's kind. -/
def fetch (c : Client) (profile : String) (l : Line) : (q : Query) → q.Answer × Line
  | route start stop =>
      let q := route start stop
      let (response, l) := c.get (q.path profile) q.parameters RouteResponse.ofJson? l
      (response.bind (·.route q.kind.service), l)
  | place id => c.get ((place id).path profile) (place id).parameters Place.ofJson? l
  | weather date location =>
      let q := weather date location
      let (response, l) := c.get (q.path profile) q.parameters Forecast.ofJson? l
      (response.bind (·.report q.kind.service date), l)
  | flight number date =>
      c.get ((flight number date).path profile) (flight number date).parameters
        FlightStatus.ofJson? l

end Query

/-! ## Configured services -/

def ProviderKind.client (kind : ProviderKind) (e : Endpoint) (requestsPerMinute : Nat) : Client :=
  .ofEndpoint kind.service e requestsPerMinute

/-- The client of the service for a kind of queries, if one is configured. -/
def ProviderSettings.client? (s : ProviderSettings) (kind : ProviderKind) : Option Client :=
  (s.endpoint? kind).map fun e => kind.client e s.requestsPerMinute

/-- A description of the client of a service. -/
def ProviderKind.describeClient (kind : ProviderKind) (profile : String) (c : Client) : String :=
  let wrap (name rest : String) : String :=
    name ++ " \x7b client: " ++ c.describe ++ rest ++ " \x7d"
  match kind with
  | .routing => wrap "OsrmRoutingProvider" (", profile: " ++ Text.quoted profile)
  | .places => wrap "JsonPlacesProvider" ""
  | .weather => wrap "OpenMeteoWeatherProvider" ""
  | .flight => wrap "JsonFlightProvider" ""

end FormulaOutline
