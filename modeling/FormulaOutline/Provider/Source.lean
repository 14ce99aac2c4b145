import FormulaOutline.Cache.Read
import FormulaOutline.Provider.Report

/-!
# Sources

A source is a provider of one kind of reports: it answers requests, perhaps through a cache of its
own.

* `Source.request` asks the provider itself.
* `Source.ask` takes the report from the cache if it is there.
-/

namespace FormulaOutline

open Calendar Geo Cache

/-- A provider of reports `ρ` for requests `κ`. -/
structure Source (κ ρ : Type) where
  id : String
  /-- What the provider says, unless it is switched to fail. -/
  answer : κ → Except ProviderError ρ
  /-- The key of a request in the cache. -/
  key : κ → CacheKey
  /-- How often the provider has been asked. -/
  calls : Nat
  /-- Whether every request fails. -/
  failing : Bool
  cache : Option (Store ρ)

namespace Source

variable {κ ρ : Type}

/-- The error of a provider that is switched to fail. -/
def unavailable (id : String) : ProviderError := .requestFailed id 503 "mock provider set to fail"

/-- Asks the provider itself. -/
def request (s : Source κ ρ) (k : κ) : Except ProviderError ρ × Source κ ρ :=
  (if s.failing then .error (unavailable s.id) else s.answer k, { s with calls := s.calls + 1 })

/-- Asks through the cache, if there is one. -/
def ask (s : Source κ ρ) (m : Moment) (k : κ) : Except ProviderError ρ × Source κ ρ :=
  match s.cache with
  | none => s.request k
  | some store =>
      let (result, store, s) :=
        store.readThrough m (s.key k) .withinTtl (fun s => s.request k) s
      (result.map Read.value, { s with cache := some store })

/-- Puts a new cache before a provider. -/
def cached (config : CacheConfig) (s : Source κ ρ) : Source κ ρ :=
  { s with cache := some (.empty config) }

def switch (failing : Bool) (s : Source κ ρ) : Source κ ρ := { s with failing }

end Source

/-! ## Keys of requests -/

/-- A location to about a metre. -/
def Geo.Location.rounded (l : Location) : String :=
  Number.places 5 l.lat ++ "," ++ Number.places 5 l.lng

def ProviderKind.namespaceOf (kind : ProviderKind) (id : String) : String := kind.name ++ "/" ++ id

def routeKey (id : String) (ends : Location × Location) : CacheKey :=
  .ofParts (ProviderKind.routing.namespaceOf id) [ends.1.rounded, ends.2.rounded]

def placeKey (id : String) (place : String) : CacheKey :=
  .ofParts (ProviderKind.places.namespaceOf id) [place]

def weatherKey (id : String) (day : Date × Location) : CacheKey :=
  .ofParts (ProviderKind.weather.namespaceOf id) [day.1.iso, day.2.rounded]

/-- A flight without a date has an empty part in its place. -/
def flightKey (id : String) (flight : String × Option Date) : CacheKey :=
  .ofParts (ProviderKind.flight.namespaceOf id) [flight.1, (flight.2.map Date.iso).getD ""]

/-! ## Sources of each kind -/

abbrev RouteSource := Source (Location × Location) Route
abbrev PlaceSource := Source String Place
abbrev WeatherSource := Source (Date × Location) WeatherReport
abbrev FlightSource := Source (String × Option Date) FlightStatus

end FormulaOutline
