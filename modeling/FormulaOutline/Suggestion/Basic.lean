import FormulaOutline.Formula.Printer
import FormulaOutline.Value.Basic

/-!
# Suggestions

A suggestion is a formula that could be put into a bullet. Functions make suggestions out of the
typed values around a scope.

* `Suggestion.pairwise` and `Suggestion.single` suggest calls with two arguments and with one.
* `Parameter.precedes` is the order of parameters in the outline.
-/

namespace FormulaOutline

open Formula

/-- How the scope of a parameter stands to the scope that suggestions are made for. -/
inductive Relationship
  /-- The scope itself or one below it. -/
  | self
  | prev
  | next
  | parent
deriving DecidableEq, Repr

namespace Relationship

def name : Relationship → String
  | self => "self"
  | prev => "prev"
  | next => "next"
  | parent => "parent"

def all : List Relationship := [self, prev, next, parent]

end Relationship

/-- A typed value near a scope. -/
structure Parameter where
  relationship : Relationship
  /-- Steps up, steps aside and steps down to it. -/
  distance : Nat
  type : ValueType
  value : Value
  node : NodeId
  scope : ScopeId
  /-- The places among the children on the way from the root; a scope that is no child has none. -/
  path : List (Option Nat)

namespace Parameter

/-- The formula that refers to the node of a parameter. -/
def reference (p : Parameter) : Expr := .reference .none p.node

/-- The text of that formula. -/
def sourceExpression (p : Parameter) : String := p.reference.pretty

/-- Places among children in their order, scopes that are no children last. -/
def placeBefore : Option Nat → Option Nat → Bool
  | some a, some b => a < b
  | some _, none => true
  | none, _ => false

/-- The lexicographic order of paths. -/
def pathBefore : List (Option Nat) → List (Option Nat) → Bool
  | _, [] => false
  | [], _ :: _ => true
  | a :: as, b :: bs => placeBefore a b || (a == b && pathBefore as bs)

/-- Whether a parameter stands before another one in the outline. -/
def precedes (a b : Parameter) : Bool := pathBefore a.path b.path

end Parameter

/-- A formula that could be put into a bullet. -/
structure Suggestion where
  function : String
  /-- The text of the formula between braces. -/
  expression : String
  /-- Lower ranks are better; a suggestion without a rank is a last resort. -/
  rank : Option Nat
deriving DecidableEq, Repr

namespace Suggestion

/-- A named argument that is read from no source. -/
def namedArgument (name : String) (value : Expr) : Argument Expr := ⟨some name, value, .none⟩

def call (function : String) (args : List (Argument Expr)) (rank : Option Nat) : Suggestion :=
  ⟨function, (Expr.inline .none (.call .none function args)).pretty, rank⟩

/-- A call whose arguments are still to be filled in. -/
def template (function : String) (names : List String) : Suggestion :=
  call function (names.map fun n => namedArgument n (.undefined .none)) none

/-- A call for each parameter of a type. -/
def single (function argument : String) (type : ValueType) (parameters : List Parameter) :
    List Suggestion :=
  (parameters.filter (·.type = type)).map fun p =>
    call function [namedArgument argument p.reference] (some p.distance)

/-- A call for each pair of different parameters of two types; if the types are the same, only for
pairs in the order of the outline. -/
def pairwise (function : String) (first second : String × ValueType)
    (parameters : List Parameter) : List Suggestion :=
  let numbered := parameters.zipIdx
  numbered.flatMap fun (a, i) =>
    if a.type ≠ first.2 then []
    else
      numbered.filterMap fun (b, j) =>
        if b.type ≠ second.2 ∨ i = j ∨ (first.2 = second.2 ∧ a.precedes b = false) then none
        else
          some (call function
            [namedArgument first.1 a.reference, namedArgument second.1 b.reference]
            (some (a.distance + b.distance)))

end Suggestion

end FormulaOutline
