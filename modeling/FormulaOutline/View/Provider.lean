import FormulaOutline.Provider.Directory
import FormulaOutline.View.Value

/-!
# Views of providers and caches
-/

namespace FormulaOutline

open Cache

/-! ## Caches -/

def Cache.CacheStats.view (s : CacheStats) : Json :=
  .object
    [("hits", .natural s.hits), ("misses", .natural s.misses), ("entries", .natural s.entries),
     ("evictions", .natural s.evictions), ("expirations", .natural s.expirations),
     ("hit_rate", .ofNumber s.hitRate)]

def Cache.CacheKey.view (k : CacheKey) : Json :=
  .object
    [("namespace", .string k.domain), ("digest", .string k.digest),
     ("display", .string k.display)]

/-! ## Reports -/

/-- A route by its exact numbers. -/
def Route.view (r : Route) : Json :=
  .object
    [("distance_km", .ofNumber r.distanceKm), ("duration_min", .ofNumber r.durationMin),
     ("geometry", .list (fun l => .string l.text) r.geometry)]

/-- The report that answers a query; all but routes as formulas see them. -/
def Query.viewReport : (q : Query) → q.Report → Json
  | route .., r => Route.view r
  | place _, p => (Place.toValue p).view
  | weather .., w => (WeatherReport.toValue w).view
  | flight .., f => (FlightStatus.toValue f).view

/-! ## Directories -/

namespace Directory

/-- The ids of the providers, and whether there is one of each kind. -/
def view (d : Directory) : Json :=
  .object
    (("flags", .list (fun k => .bool (d.has k)) ProviderKind.all) ::
      ProviderKind.all.map fun k => (k.name, .ofOption .string (d.id? k)))

def viewStats {κ ρ : Type} (s : Option (Source κ ρ)) : Json :=
  .ofOption (fun store => store.stats.view) (s.bind Source.cache)

/-- What has happened in all caches. -/
def viewCaches (d : Directory) : Json :=
  .object
    [("routing", viewStats d.routing), ("places", viewStats d.places),
     ("weather", viewStats d.weather), ("flight", viewStats d.flight)]

/-- How often each provider has been asked. -/
def counts (d : Directory) : List (ProviderKind × Nat) :=
  ProviderKind.all.filterMap fun k => (d.calls? k).map (k, ·)

end Directory

end FormulaOutline
