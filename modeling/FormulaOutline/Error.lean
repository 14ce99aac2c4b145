import FormulaOutline.Config.Basic
import FormulaOutline.Document.Error
import FormulaOutline.Evaluation.Error
import FormulaOutline.Pattern.Basic
import FormulaOutline.Provider.Error

/-!
# Errors

All errors of the library, with the part that they come from.
-/

namespace FormulaOutline

inductive OutlineError
  | document (cause : DocumentError)
  | evaluation (cause : EvalError)
  | provider (cause : ProviderError)
  | pattern (cause : PatternError)
  | config (cause : ConfigError)
deriving DecidableEq, Repr

/-! ## Codes -/

def DocumentError.code : DocumentError → String
  | nodeNotFound _ => "NodeNotFound"
  | invalidStructure .. => "InvalidStructure"
  | transclusionRejected .. => "TransclusionRejected"
  | invalidOutline .. => "InvalidOutline"

def EvalError.code : EvalError → String
  | unknownFunction _ => "UnknownFunction"
  | missingArgument .. => "MissingArgument"
  | invalidArgument .. => "InvalidArgument"
  | resolutionFailure _ => "ResolutionFailure"
  | scopeNotFound _ => "ScopeNotFound"
  | noRuntime => "NoRuntime"

def ProviderError.code : ProviderError → String
  | notConfigured _ => "NotConfigured"
  | requestFailed .. => "RequestFailed"
  | rateLimited .. => "RateLimited"
  | invalidResponse .. => "InvalidResponse"

def PatternError.code : PatternError → String
  | notAFormula _ => "NotAFormula"
  | noAnchor .. => "NoAnchor"

def ConfigError.code : ConfigError → String
  | missingRequired _ => "MissingRequired"
  | invalidValue .. => "InvalidValue"
  | parse _ => "Parse"

namespace OutlineError

def causeMessage : OutlineError → String
  | document e => e.message
  | evaluation e => e.message
  | provider e => e.message
  | pattern e => e.message
  | config e => e.message

def part : OutlineError → String
  | document _ => "Document"
  | evaluation _ => "Eval"
  | provider _ => "Provider"
  | pattern _ => "Generalize"
  | config _ => "Config"

def message (e : OutlineError) : String := e.part ++ " error: " ++ e.causeMessage

/-- The part and the kind of the cause. -/
def code (e : OutlineError) : String :=
  e.part ++ "." ++
    match e with
    | document e => e.code
    | evaluation e => e.code
    | provider e => e.code
    | pattern e => e.code
    | config e => e.code

end OutlineError

end FormulaOutline
