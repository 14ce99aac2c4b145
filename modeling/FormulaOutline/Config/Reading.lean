import FormulaOutline.Config.Encoding
import FormulaOutline.Text.Line
import FormulaOutline.Toml.Reader

/-!
# Configurations from files and from the environment

* `EngineConfig.ofToml` reads and validates a configuration file.
* `EngineConfig.override` takes over what the variables of the environment say.
-/

namespace FormulaOutline

namespace EngineConfig

/-! ## Files -/

/-- A section is a table, or a list that begins with its fields. -/
def tomlSection : SectionReader := fun _ j =>
  match j with
  | .object fields => some (.named fields)
  | .array items => some (.listed items)
  | _ => none

/-- The configuration that a file describes, if it is a valid one. -/
def ofToml (source : List Char) : Except ConfigError EngineConfig := do
  match (Toml.parse source).bind (ofFields? tomlSection) with
  | none => .error (.parse "not a configuration")
  | some c =>
      c.validate
      .ok c

end EngineConfig

/-! ## Environments -/

/-- The variables of an environment. -/
abbrev Environment := List (String × String)

namespace Environment

def find? (env : Environment) (name : String) : Option String := List.lookup name env

/-- The number that a variable holds, with blanks around it. -/
def natural? (env : Environment) (bound : Nat) (name : String) : Option Nat := do
  let s ← env.find? name
  Number.natural? bound (Text.trim s.toList)

end Environment

/-- Takes over the location of a provider, and its key if one is named. -/
def Environment.endpoint (env : Environment) (urlName : String) (keyName : Option String)
    (e : Option Endpoint) : Option Endpoint :=
  let located :=
    match env.find? urlName with
    | some url => some ⟨String.ofList (Text.trim url.toList), e.bind Endpoint.apiKey⟩
    | none => e
  match keyName.bind env.find? with
  | some key => located.map fun e => { e with apiKey := some key }
  | none => located

/-- A configuration with the values that the environment has for it. Numbers that cannot be read
are left alone, and nothing is validated. -/
def EngineConfig.override (c : EngineConfig) (env : Environment) : EngineConfig :=
  let count (name : String) (value : Nat) : Nat := (env.natural? Json.wordBound name).getD value
  { search :=
      { c.search with
        maxSiblingDistance := count "OUTLINE_MAX_SIBLING_DISTANCE" c.search.maxSiblingDistance
        maxAncestorDepth := count "OUTLINE_MAX_ANCESTOR_DEPTH" c.search.maxAncestorDepth }
    resolutionTimeoutMs := count "OUTLINE_RESOLUTION_TIMEOUT_MS" c.resolutionTimeoutMs
    cache :=
      { maxEntries := count "OUTLINE_CACHE_MAX_ENTRIES" c.cache.maxEntries
        ttlSecs := count "OUTLINE_CACHE_TTL_SECS" c.cache.ttlSecs }
    providers :=
      { routing := env.endpoint "OUTLINE_ROUTING_URL" none c.providers.routing
        places :=
          env.endpoint "OUTLINE_PLACES_URL" (some "OUTLINE_PLACES_API_KEY") c.providers.places
        weather := env.endpoint "OUTLINE_WEATHER_URL" none c.providers.weather
        flight :=
          env.endpoint "OUTLINE_FLIGHT_URL" (some "OUTLINE_FLIGHT_API_KEY") c.providers.flight
        requestsPerMinute :=
          (env.natural? UInt32.size "OUTLINE_REQUESTS_PER_MINUTE").getD
            c.providers.requestsPerMinute } }

end FormulaOutline
