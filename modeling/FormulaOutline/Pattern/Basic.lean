import FormulaOutline.Formula.Expr
import FormulaOutline.Formula.Token
import FormulaOutline.Value.Basic

/-!
# Patterns

A pattern is what an example formula says about the places where formulas like it belong: next to
each scope of the anchor's type, with arguments found from there.
-/

namespace FormulaOutline

open Formula

/-- Where a formula stands, seen from the scope that is its anchor. -/
inductive Placement
  /-- Right before the anchor. -/
  | above
  /-- Right after the anchor. -/
  | below
  /-- As the last child of the anchor. -/
  | child
deriving DecidableEq, Repr

def Placement.name : Placement → String
  | .above => "above"
  | .below => "below"
  | .child => "child"

/-- How an argument is found from an anchor. -/
inductive Rule
  /-- The anchor itself. -/
  | anchor
  /-- The nearest scope above with a value of this type. -/
  | closestAncestor (type : ValueType)
  /-- The nearest sibling before with a value of this type. -/
  | prevSibling (type : ValueType)
  /-- The nearest sibling after with a value of this type. -/
  | nextSibling (type : ValueType)
  /-- The same expression everywhere. -/
  | literal (e : Expr)

structure Anchor where
  /-- The name of the argument, or else of the declared argument that it fills. -/
  name : String
  type : ValueType
  placement : Placement
deriving DecidableEq, Repr

structure Pattern where
  function : String
  anchor : Anchor
  /-- A rule for each argument of the example, with the argument's name. -/
  arguments : List (Option String × Rule)
  /-- The node of the example. -/
  learnedFrom : NodeId

/-- A formula that was added to a document. -/
structure Insertion where
  node : NodeId
  parent : NodeId
  index : Nat
  text : String
  /-- The node of the anchor. -/
  anchor : NodeId
deriving DecidableEq, Repr

/-! ## Errors of learning -/

inductive PatternError
  /-- The example is not a single call. -/
  | notAFormula (node : NodeId)
  /-- No argument of the example is declared and refers to a node. -/
  | noAnchor (function : String) (node : NodeId)
deriving DecidableEq, Repr

def PatternError.message : PatternError → String
  | .notAFormula node => "Scope " ++ node ++ " is not a single inline function call"
  | .noAnchor function node => "No anchor argument found for " ++ function ++ " at " ++ node

end FormulaOutline
