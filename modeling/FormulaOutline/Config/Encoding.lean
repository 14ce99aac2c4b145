import FormulaOutline.Config.Basic
import FormulaOutline.Json.Decode

/-!
# Configurations as trees of fields

* `EngineConfig.toJson` writes a configuration with all its fields.
* `EngineConfig.ofFields?` reads one; sections and fields that are left out have their defaults,
  and names that are not known are ignored. Whether a section may also be a list of its fields is
  up to the reader.
-/

namespace FormulaOutline

open Json (Decoder Fields)

/-- How the fields of a section of a given size are found. -/
abbrev SectionReader := Nat → Decoder Fields

/-- Numbers of entries, steps and times have 64 bits. -/
def asCount? : Decoder Nat := Json.asNat? Json.wordBound

namespace SearchBounds

def toJson (b : SearchBounds) : Json :=
  .object
    [("max_sibling_distance", .natural b.maxSiblingDistance),
     ("max_ancestor_depth", .natural b.maxAncestorDepth),
     ("max_subtree_depth", .natural b.maxSubtreeDepth)]

def ofFields? (reader : SectionReader) : Decoder SearchBounds := fun j => do
  let fields ← reader 3 j
  let siblings ←
    fields.withDefault 0 "max_sibling_distance" default.maxSiblingDistance asCount?
  let above ← fields.withDefault 1 "max_ancestor_depth" default.maxAncestorDepth asCount?
  let below ← fields.withDefault 2 "max_subtree_depth" default.maxSubtreeDepth asCount?
  some ⟨siblings, above, below⟩

end SearchBounds

namespace CacheSettings

def toJson (s : CacheSettings) : Json :=
  .object [("max_entries", .natural s.maxEntries), ("ttl_secs", .natural s.ttlSecs)]

def ofFields? (reader : SectionReader) : Decoder CacheSettings := fun j => do
  let fields ← reader 2 j
  let maxEntries ← fields.withDefault 0 "max_entries" default.maxEntries asCount?
  let ttlSecs ← fields.withDefault 1 "ttl_secs" default.ttlSecs asCount?
  some ⟨maxEntries, ttlSecs⟩

end CacheSettings

namespace Endpoint

def toJson (e : Endpoint) : Json :=
  .object [("base_url", .string e.baseUrl), ("api_key", .ofOption .string e.apiKey)]

def ofFields? (reader : SectionReader) : Decoder Endpoint := fun j => do
  let fields ← reader 2 j
  let baseUrl ← fields.required 0 "base_url" Json.asString?
  let apiKey ← fields.withDefault 1 "api_key" none (Json.nullable Json.asString?)
  some ⟨baseUrl, apiKey⟩

end Endpoint

namespace ProviderSettings

def toJson (s : ProviderSettings) : Json :=
  .object
    ((ProviderKind.all.map fun k => (k.name, .ofOption Endpoint.toJson (s.endpoint? k))) ++
      [("requests_per_minute", .natural s.requestsPerMinute)])

def ofFields? (reader : SectionReader) : Decoder ProviderSettings := fun j => do
  let fields ← reader 5 j
  let endpoint (place : Nat) (kind : ProviderKind) : Option (Option Endpoint) :=
    fields.withDefault place kind.name none (Json.nullable (Endpoint.ofFields? reader))
  let routing ← endpoint 0 .routing
  let places ← endpoint 1 .places
  let weather ← endpoint 2 .weather
  let flight ← endpoint 3 .flight
  let requests ←
    fields.withDefault 4 "requests_per_minute" default.requestsPerMinute (Json.asNat? UInt32.size)
  some ⟨routing, places, weather, flight, requests⟩

end ProviderSettings

namespace EngineConfig

/-- The section that holds how long scopes wait. -/
def timeoutOfFields? (reader : SectionReader) : Decoder Nat := fun j => do
  let fields ← reader 1 j
  fields.withDefault 0 "resolution_timeout_ms" default.resolutionTimeoutMs asCount?

def toJson (c : EngineConfig) : Json :=
  .object
    [("suggestion", c.search.toJson),
     ("evaluation", .object [("resolution_timeout_ms", .natural c.resolutionTimeoutMs)]),
     ("cache", c.cache.toJson), ("providers", c.providers.toJson)]

def ofFields? (reader : SectionReader) : Decoder EngineConfig := fun j => do
  let fields ← reader 4 j
  let search ← fields.withDefault 0 "suggestion" .default (SearchBounds.ofFields? reader)
  let timeout ←
    fields.withDefault 1 "evaluation" default.resolutionTimeoutMs (timeoutOfFields? reader)
  let cache ← fields.withDefault 2 "cache" .default (CacheSettings.ofFields? reader)
  let providers ← fields.withDefault 3 "providers" .default (ProviderSettings.ofFields? reader)
  some ⟨search, timeout, cache, providers⟩

/-- Reads a configuration that was written as JSON. -/
def ofJson? : Decoder EngineConfig := ofFields? Json.fields?

end EngineConfig

end FormulaOutline
