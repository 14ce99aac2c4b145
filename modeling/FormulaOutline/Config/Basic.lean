import FormulaOutline.Cache.Store
import FormulaOutline.Provider.Report

/-!
# Configurations

* `EngineConfig.default` has the values that are not configured otherwise.
* `EngineConfig.validate` refuses values with which nothing would work.
-/

namespace FormulaOutline

/-! ## Errors of configurations -/

inductive ConfigError
  | missingRequired (field : String)
  | invalidValue (field value reason : String)
  | parse (reason : String)
deriving DecidableEq, Repr

def ConfigError.message : ConfigError → String
  | .missingRequired field => "Missing required configuration field: " ++ field
  | .invalidValue field value reason =>
      "Invalid value for " ++ field ++ ": " ++ value ++ " - " ++ reason
  | .parse reason => "Failed to parse configuration: " ++ reason

/-! ## Configurations -/

/-- How far parameters for suggestions are searched for. -/
structure SearchBounds where
  /-- Siblings on either side. -/
  maxSiblingDistance : Nat
  /-- Steps from a scope to the scopes above it. -/
  maxAncestorDepth : Nat
  /-- Levels below a scope. -/
  maxSubtreeDepth : Nat
deriving DecidableEq, Repr

structure CacheSettings where
  maxEntries : Nat
  ttlSecs : Nat
deriving DecidableEq, Repr

/-- Where a provider is reached. -/
structure Endpoint where
  baseUrl : String
  apiKey : Option String
deriving DecidableEq, Repr

structure ProviderSettings where
  routing : Option Endpoint
  places : Option Endpoint
  weather : Option Endpoint
  flight : Option Endpoint
  requestsPerMinute : Nat
deriving DecidableEq, Repr

structure EngineConfig where
  search : SearchBounds
  /-- How long a scope waits for another one, in milliseconds. -/
  resolutionTimeoutMs : Nat
  cache : CacheSettings
  providers : ProviderSettings
deriving DecidableEq, Repr

/-- The configuration of the caches with given settings. -/
def CacheSettings.config (s : CacheSettings) : Cache.CacheConfig := ⟨s.maxEntries, s.ttlSecs * 1000⟩

def ProviderSettings.endpoint? (s : ProviderSettings) : ProviderKind → Option Endpoint
  | .routing => s.routing
  | .places => s.places
  | .weather => s.weather
  | .flight => s.flight

namespace SearchBounds

def default : SearchBounds := ⟨8, 16, 4⟩

end SearchBounds

namespace CacheSettings

def default : CacheSettings := ⟨1024, 3600⟩

end CacheSettings

namespace ProviderSettings

def default : ProviderSettings := ⟨none, none, none, none, 60⟩

end ProviderSettings

namespace EngineConfig

def default : EngineConfig := ⟨.default, 5000, .default, .default⟩

/-! ## Validation -/

def isHttpUrl (url : String) : Bool :=
  "http://".toList.isPrefixOf url.toList || "https://".toList.isPrefixOf url.toList

/-- Refuses a number that is zero. -/
def positive (field reason : String) (n : Nat) : Except ConfigError Unit :=
  if n = 0 then .error (.invalidValue field "0" reason) else .ok ()

/-- Refuses a provider that is not reached by HTTP. -/
def reachable (s : ProviderSettings) (kind : ProviderKind) : Except ConfigError Unit :=
  match s.endpoint? kind with
  | none => .ok ()
  | some e =>
      if isHttpUrl e.baseUrl then .ok ()
      else
        let field := "providers." ++ kind.name
        .error (.invalidValue field e.baseUrl "base_url must be an http(s) URL")

/-- Refuses values with which nothing would work; the first one that is found. -/
def validate (c : EngineConfig) : Except ConfigError Unit := do
  positive "evaluation.resolution_timeout_ms" "resolution timeout must be positive"
    c.resolutionTimeoutMs
  positive "cache.max_entries" "cache must hold at least one entry" c.cache.maxEntries
  positive "cache.ttl_secs" "cache TTL must be positive" c.cache.ttlSecs
  positive "providers.requests_per_minute" "request budget must be positive"
    c.providers.requestsPerMinute
  ProviderKind.all.forM (reachable c.providers)

end EngineConfig

end FormulaOutline
