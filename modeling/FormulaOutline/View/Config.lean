import FormulaOutline.Config.Encoding
import FormulaOutline.Provider.Service
import FormulaOutline.View.Value

/-!
# Views of configurations and requests
-/

namespace FormulaOutline

/-- A configuration without its sections. -/
def EngineConfig.view (c : EngineConfig) : Json :=
  .object
    ([("max_sibling_distance", .natural c.search.maxSiblingDistance),
      ("max_ancestor_depth", .natural c.search.maxAncestorDepth),
      ("max_subtree_depth", .natural c.search.maxSubtreeDepth),
      ("resolution_timeout_ms", .natural c.resolutionTimeoutMs),
      ("timeout_secs", .natural (c.resolutionTimeoutMs / 1000)),
      ("max_entries", .natural c.cache.maxEntries), ("ttl_secs", .natural c.cache.ttlSecs),
      ("requests_per_minute", .natural c.providers.requestsPerMinute)] ++
      ProviderKind.all.map fun k =>
        (k.name, .ofOption Endpoint.toJson (c.providers.endpoint? k)))

/-- The services that are configured. -/
def ProviderSettings.viewServices (s : ProviderSettings) : Json :=
  .object
    (("flags", .list (fun k => .bool (s.endpoint? k).isSome) ProviderKind.all) ::
      ProviderKind.all.map fun k =>
        (k.name, .ofOption (fun c => .string c.provider) (s.client? k)))

def Http.Request.view (r : Http.Request) : Json :=
  .object
    [("request", .string ("GET " ++ r.target)),
     ("authorization", .ofOption .string r.authorization)]

/-- The clients of all services at one address, after a client of its own. -/
def Http.Client.viewAll (c : Http.Client) (e : Endpoint) : Json :=
  .list .string
    (c.describe ::
      [ProviderKind.routing, .weather, .places, .flight].map fun k =>
        k.describeClient c.provider (k.client e 60))

end FormulaOutline
