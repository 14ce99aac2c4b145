/-!
# Errors of providers
-/

namespace FormulaOutline

inductive ProviderError
  | notConfigured (provider : String)
  /-- Status zero stands for a request that has no answer at all. -/
  | requestFailed (provider : String) (status : Nat) (message : String)
  | rateLimited (provider : String) (retryAfterMs : Nat)
  | invalidResponse (provider reason : String)
deriving DecidableEq, Repr

def ProviderError.message : ProviderError → String
  | .notConfigured provider => "No " ++ provider ++ " provider configured"
  | .requestFailed provider status message =>
      "Request to " ++ provider ++ " failed with status " ++ toString status ++ ": " ++ message
  | .rateLimited provider retryAfterMs =>
      "Rate limited by " ++ provider ++ ", retry after " ++ toString retryAfterMs ++ "ms"
  | .invalidResponse provider reason => "Invalid response from " ++ provider ++ ": " ++ reason

end FormulaOutline
