/-!
# Errors of evaluation

Inside a formula such an error is contained: the expression that meets it has no value.
-/

namespace FormulaOutline

inductive EvalError
  | unknownFunction (name : String)
  | missingArgument (function argument : String)
  | invalidArgument (function argument reason : String)
  | resolutionFailure (name : String)
  | scopeNotFound (scope : String)
  | noRuntime
deriving DecidableEq, Repr

def EvalError.message : EvalError → String
  | .unknownFunction name => "Unknown function: " ++ name
  | .missingArgument function argument => "Missing argument " ++ argument ++ " for " ++ function
  | .invalidArgument function argument reason =>
      "Invalid argument " ++ argument ++ " for " ++ function ++ ": " ++ reason
  | .resolutionFailure name => "Could not resolve " ++ name
  | .scopeNotFound scope => "Scope not found: " ++ scope
  | .noRuntime => "Evaluation requires a running async runtime"

end FormulaOutline
