import FormulaOutline.Provider.Source
import FormulaOutline.Value.Display

/-!
# Directories of providers

A directory has at most one provider of each kind.

* `Directory.ask` answers a query with the provider of its kind.
-/

namespace FormulaOutline

open Cache

structure Directory where
  routing : Option RouteSource
  places : Option PlaceSource
  weather : Option WeatherSource
  flight : Option FlightSource

namespace Directory

def empty : Directory := ⟨none, none, none, none⟩

def has (d : Directory) : ProviderKind → Bool
  | .routing => d.routing.isSome
  | .places => d.places.isSome
  | .weather => d.weather.isSome
  | .flight => d.flight.isSome

def id? (d : Directory) : ProviderKind → Option String
  | .routing => d.routing.map Source.id
  | .places => d.places.map Source.id
  | .weather => d.weather.map Source.id
  | .flight => d.flight.map Source.id

/-- How often the provider of a kind has been asked. -/
def calls? (d : Directory) : ProviderKind → Option Nat
  | .routing => d.routing.map Source.calls
  | .places => d.places.map Source.calls
  | .weather => d.weather.map Source.calls
  | .flight => d.flight.map Source.calls

/-- Makes every request to the provider of a kind fail, or no longer. -/
def switch (d : Directory) (kind : ProviderKind) (failing : Bool) : Directory :=
  match kind with
  | .routing => { d with routing := d.routing.map (.switch failing) }
  | .places => { d with places := d.places.map (.switch failing) }
  | .weather => { d with weather := d.weather.map (.switch failing) }
  | .flight => { d with flight := d.flight.map (.switch failing) }

def clear (d : Directory) : ProviderKind → Directory
  | .routing => { d with routing := none }
  | .places => { d with places := none }
  | .weather => { d with weather := none }
  | .flight => { d with flight := none }

/-- Puts a new cache before each provider. -/
def cached (d : Directory) (config : CacheConfig) : Directory :=
  ⟨d.routing.map (.cached config), d.places.map (.cached config), d.weather.map (.cached config),
    d.flight.map (.cached config)⟩

/-- Asks a source if there is one. -/
def consult {κ ρ : Type} (kind : ProviderKind) (s : Option (Source κ ρ)) (m : Moment) (k : κ) :
    Except ProviderError ρ × Option (Source κ ρ) :=
  match s with
  | none => (.error (.notConfigured kind.name), none)
  | some s => ((s.ask m k).1, some (s.ask m k).2)

/-- Asks the provider of the query's kind. -/
def ask (d : Directory) (m : Moment) : (q : Query) → q.Answer × Directory
  | .route start stop =>
      let (answer, routing) := consult .routing d.routing m (start, stop)
      (answer, { d with routing })
  | .place id =>
      let (answer, places) := consult .places d.places m id
      (answer, { d with places })
  | .weather date location =>
      let (answer, weather) := consult .weather d.weather m (date, location)
      (answer, { d with weather })
  | .flight number date =>
      let (answer, flight) := consult .flight d.flight m (number, date)
      (answer, { d with flight })

/-- A short description of a directory. -/
def describe (d : Directory) : String :=
  let entry (kind : ProviderKind) : String := kind.name ++ ": " ++ toString (d.has kind)
  "ProviderRegistry " ++ Value.braced
    (" " ++ ", ".intercalate (ProviderKind.all.map entry) ++ " ")

end Directory

end FormulaOutline
