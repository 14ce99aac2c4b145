import FormulaOutline.Formula.Bullet

/-!
# Shapes of calls

Calls of one shape mean the same: the same function, the same arguments without a name in order, and
the same argument for each name.

* `CallShape.of?` gives the shape of a call.
-/

namespace FormulaOutline

open Formula

structure CallShape where
  function : String
  positional : List Expr
  /-- The arguments with names, in the order of their names, each name once. -/
  named : List (String × Expr)
deriving BEq

namespace CallShape

/-- Puts an argument in its place by its name, unless the name is there. -/
def insertNamed (name : String) (value : Expr) : List (String × Expr) → List (String × Expr)
  | [] => [(name, value)]
  | (n, v) :: rest =>
      if name < n then (name, value) :: (n, v) :: rest
      else if name = n then (n, v) :: rest
      else (n, v) :: insertNamed name value rest

def add (shape : CallShape) (arg : Argument Expr) : CallShape :=
  match arg.name with
  | some name => { shape with named := insertNamed name arg.value.withoutSpans shape.named }
  | none => { shape with positional := shape.positional ++ [arg.value.withoutSpans] }

def of? : Expr → Option CallShape
  | .call _ function args => some (args.foldl add ⟨function, [], []⟩)
  | _ => none

/-- The shape of a text that is a single call. -/
def ofText? (text : String) : Option CallShape :=
  (bulletOrLiteral text.toList).singleCall?.bind of?

end CallShape

end FormulaOutline
