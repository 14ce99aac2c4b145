import FormulaOutline.Formula.Bullet
import FormulaOutline.Value.Basic

/-!
# Scopes

A scope is an occurrence of a node: at its own place in the document, or where a formula refers to
it. It holds what the evaluation of its bullet has come to.
-/

namespace FormulaOutline

open Formula

/-- How far the evaluation of a scope has come. -/
inductive EvalState
  | idle
  | pending
  /-- One value for each part of the bullet. -/
  | resolved (values : List Value)
deriving BEq

namespace EvalState

def values? : EvalState → Option (List Value)
  | resolved values => some values
  | _ => none

def isResolved (s : EvalState) : Bool := s.values?.isSome

def isIdle : EvalState → Bool
  | idle => true
  | _ => false

end EvalState

/-- A run of the evaluation of a scope. -/
structure Publisher where
  scope : ScopeId
  epoch : Nat
deriving DecidableEq, Repr

/-- A result that a function has put on a scope beside the scope's own value. -/
structure ComputationResult where
  name : String
  data : Value
  /-- The scope whose evaluation gave the result, none if it came from outside. -/
  publisher : Option ScopeId
  epoch : Nat

structure ScopeRecord where
  node : NodeId
  parent : Option ScopeId
  bullet : Bullet
  /-- A scope for each child of the node. -/
  children : List ScopeId
  /-- A scope for each node that the bullet refers to. -/
  transcluded : List (NodeId × ScopeId)
  /-- The keys of the children, each with the first child that has it. -/
  named : List (String × ScopeId)
  state : EvalState
  results : List ComputationResult
  /-- A disabled scope neither changes nor reports anything. -/
  disabled : Bool
  /-- The number of the latest run; earlier runs no longer count. -/
  epoch : Nat
  /-- Stands for a node that is missing or that contains the scope itself. -/
  placeholder : Bool
  /-- Stands where a formula refers to the node. -/
  transclusion : Bool

namespace ScopeRecord

/-- A scope that has not been evaluated and owns no scope yet. -/
def fresh (node : NodeId) (parent : Option ScopeId) (bullet : Bullet)
    (placeholder transclusion : Bool) : ScopeRecord :=
  { node, parent, bullet, placeholder, transclusion
    children := []
    transcluded := []
    named := []
    state := .idle
    results := []
    disabled := false
    epoch := 0 }

def key? (r : ScopeRecord) : Option String := r.bullet.keyName

/-- The scopes that a scope owns, children first. -/
def owned (r : ScopeRecord) : List ScopeId := r.children ++ r.transcluded.map Prod.snd

/-- Disables a scope; a run under way no longer counts. -/
def disable (r : ScopeRecord) : ScopeRecord := { r with disabled := true, epoch := r.epoch + 1 }

/-- Whether a result comes from a given publisher under a given name. -/
def isFrom (r new : ComputationResult) : Bool :=
  r.publisher == new.publisher && r.name == new.name

/-- Puts a result in the place of an earlier one of the same publisher and name, or at the end. -/
def insertResult (new : ComputationResult) : List ComputationResult → List ComputationResult
  | [] => [new]
  | r :: rest => if isFrom r new then new :: rest else r :: insertResult new rest

end ScopeRecord

end FormulaOutline
