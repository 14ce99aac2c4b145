import FormulaOutline.Evaluation.Function
import FormulaOutline.Value.Arithmetic

/-!
# Evaluating expressions

* `evaluate` is the process that evaluates an expression in a scope.
* `evaluatePart` evaluates a part of a bullet.

All arguments of a call and both sides of an operator run side by side. A call of an unknown
function gives null, a call that fails is undefined.
-/

namespace FormulaOutline.Evaluation

open Formula

/-- The name of the function that takes fields. -/
def fieldFunction : String := "Get"

/-- The value of a call; failures have none. -/
def outcomeValue : Outcome → Value
  | .ok v => v
  | .error _ => .undefined

def callByName (functions : Registry) (scope : ScopeId) (name : String) (args : CallArgs)
    (next : Value → Process) : Process :=
  match functions.find? name with
  | none => next .null
  | some f => f.call args scope fun outcome => next (outcomeValue outcome)

/-- Values as arguments, under the names that they were written with. -/
def bindArguments (args : List (Argument Expr)) (values : List Value) : CallArgs :=
  .ofList ((args.map Argument.name).zip values)

mutual

/-- Evaluates an expression in a scope and goes on with its value. -/
def evaluate (functions : Registry) (scope : ScopeId) : Expr → (Value → Process) → Process
  | .string _ s, next => next (.text s)
  | .number _ x, next => next (.number x)
  | .undefined _, next => next .undefined
  | .reference _ node, next =>
      .look fun t => next (((t.transcludedScope? scope node).map Value.scope).getD .undefined)
  | .name _ name, next =>
      .look fun t =>
        match t.lookup? scope name with
        | some target => .valueOfScope target next
        | none => next .undefined
  | .field _ object field, next =>
      .both (evaluate functions scope object .done) (evaluate functions scope field .done)
        fun object field =>
          callByName functions scope fieldFunction ⟨[object, field], []⟩ next
  | .call _ name args, next =>
      .gather (evaluateArguments functions scope args) fun values =>
        callByName functions scope name (bindArguments args values) next
  | .binary _ op lhs rhs, next =>
      .both (evaluate functions scope lhs .done) (evaluate functions scope rhs .done) fun lhs rhs =>
        .both (.follow lhs .done) (.follow rhs .done) fun lhs rhs => next (lhs.binary op rhs)
  | .inline _ inner, next => evaluate functions scope inner next

def evaluateArguments (functions : Registry) (scope : ScopeId) :
    List (Argument Expr) → List Process
  | [] => []
  | a :: rest =>
      evaluate functions scope a.value .done :: evaluateArguments functions scope rest

end

/-- Evaluates a part of a bullet; literal text stands for what is recognized in it. -/
def evaluatePart (functions : Registry) (scope : ScopeId) : Expr → Process
  | .string _ s => .done (recognize s)
  | e => evaluate functions scope e .done

def evaluateParts (functions : Registry) (scope : ScopeId) (b : Bullet) : List Process :=
  b.parts.map (evaluatePart functions scope)

end FormulaOutline.Evaluation
