import FormulaOutline.Evaluation.Error
import FormulaOutline.Evaluation.Process
import FormulaOutline.Suggestion.Basic
import FormulaOutline.Value.Basic

/-!
# Functions and their arguments

A function can be called from formulas. Functions are known by their names, in the order in which
they were registered. The values of a call's arguments are kept by position if they have no name, and
else by their names.
-/

namespace FormulaOutline

/-! ## Arguments of calls -/

structure CallArgs where
  positional : List Value
  /-- Each name once, in the order in which they were first given. -/
  named : List (String × Value)

/-- What a call gives for an argument that a function declares. -/
inductive ArgumentSlot
  | absent
  /-- Given without a value. -/
  | blank
  | present (v : Value)

namespace CallArgs

def empty : CallArgs := ⟨[], []⟩

/-- Adds a value without a name. -/
def push (args : CallArgs) (v : Value) : CallArgs :=
  { args with positional := args.positional ++ [v] }

/-- Adds a value with a name, unless the name is taken. -/
def insertNamed (args : CallArgs) (name : String) (v : Value) : CallArgs :=
  if args.named.any (·.1 == name) then args
  else { args with named := args.named ++ [(name, v)] }

/-- Adds a value, with a name if there is one. -/
def add (args : CallArgs) (name : Option String) (v : Value) : CallArgs :=
  match name with
  | some n => args.insertNamed n v
  | none => args.push v

/-- The values of arguments with their names. -/
def ofList (values : List (Option String × Value)) : CallArgs :=
  values.foldl (fun args (n, v) => args.add n v) empty

def size (args : CallArgs) : Nat := args.positional.length + args.named.length

def isEmpty (args : CallArgs) : Bool := args.size = 0

/-- The value at a position, undefined if there is none. -/
def positionalAt (args : CallArgs) (index : Nat) : Value :=
  (args.positional[index]?).getD .undefined

def named? (args : CallArgs) (name : String) : Option Value := args.named.lookup name

/-- The value for a declared argument: by its name, or else by its position. -/
def value? (args : CallArgs) (name : String) (index : Nat) : Option Value :=
  (args.named? name).or args.positional[index]?

def slot (args : CallArgs) (name : String) (index : Nat) : ArgumentSlot :=
  match args.value? name index with
  | none => .absent
  | some v => if v.isUndefined then .blank else .present v

end CallArgs

/-! ## Functions -/

/-- An argument that a function declares. -/
structure ParameterSpec where
  name : String
  type : ValueType
deriving DecidableEq, Repr

/-- Why a call has no value. -/
inductive CallError
  | evaluation (cause : EvalError)
  | provider (cause : ProviderError)
  /-- The function broke down. -/
  | panicked
deriving DecidableEq, Repr

abbrev Outcome := Except CallError Value

structure Function where
  name : String
  summary : String
  /-- The declared arguments, in positional order. -/
  parameters : List ParameterSpec
  /-- Calls the function from a scope. -/
  call : CallArgs → ScopeId → (Outcome → Process) → Process
  /-- Calls with the given parameters. -/
  suggestions : List Parameter → List Suggestion
  /-- A call that can be suggested anywhere. -/
  autocomplete : Option Suggestion

/-- Functions by their names. -/
abbrev Registry := List Function

namespace Registry

def find? (r : Registry) (name : String) : Option Function := List.find? (·.name == name) r

def contains (r : Registry) (name : String) : Bool := r.any (·.name == name)

def names (r : Registry) : List String := r.map Function.name

/-- Adds a function, in the place of one with the same name if there is one. -/
def register : Registry → Function → Registry
  | [], f => [f]
  | g :: rest, f => if g.name = f.name then f :: rest else g :: register rest f

end Registry

end FormulaOutline
