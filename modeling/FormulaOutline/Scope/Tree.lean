import FormulaOutline.Scope.Arena
import FormulaOutline.Scope.Record

/-!
# Scope trees

The scopes of a document, each owned by the scope of its parent or by the scope that refers to it.

* `ScopeTree.walk` lists the scopes that are reached from one along given links.
* `ScopeTree.owned` lists a scope and all that it owns.
* `ScopeTree.upward` lists a scope and the scopes above it.
-/

namespace FormulaOutline

structure ScopeTree where
  arena : Arena ScopeRecord
  root : ScopeId

namespace ScopeTree

/-! ## Single scopes -/

def record? (t : ScopeTree) (id : ScopeId) : Option ScopeRecord := t.arena.get? id

def isLive (t : ScopeTree) (id : ScopeId) : Bool := t.arena.isLive id

/-- The number of scopes. -/
def size (t : ScopeTree) : Nat := t.arena.size

def node? (t : ScopeTree) (id : ScopeId) : Option NodeId := (t.record? id).map ScopeRecord.node

def key? (t : ScopeTree) (id : ScopeId) : Option String := (t.record? id).bind ScopeRecord.key?

def parent? (t : ScopeTree) (id : ScopeId) : Option ScopeId :=
  (t.record? id).bind ScopeRecord.parent

def children (t : ScopeTree) (id : ScopeId) : List ScopeId :=
  ((t.record? id).map ScopeRecord.children).getD []

def transcluded (t : ScopeTree) (id : ScopeId) : List (NodeId × ScopeId) :=
  ((t.record? id).map ScopeRecord.transcluded).getD []

/-- The scope that stands for a node that a scope refers to. -/
def transcludedScope? (t : ScopeTree) (id : ScopeId) (node : NodeId) : Option ScopeId :=
  (t.transcluded id).lookup node

/-- The place of a scope among its parent's children. -/
def indexInParent? (t : ScopeTree) (id : ScopeId) : Option Nat := do
  let parent ← t.parent? id
  (t.children parent).findIdx? (· == id)

/-- Whether a scope is disabled; one that is gone counts as disabled. -/
def isDisabled (t : ScopeTree) (id : ScopeId) : Bool :=
  ((t.record? id).map ScopeRecord.disabled).getD true

def isPlaceholder (t : ScopeTree) (id : ScopeId) : Bool :=
  ((t.record? id).map ScopeRecord.placeholder).getD false

def isTransclusion (t : ScopeTree) (id : ScopeId) : Bool :=
  ((t.record? id).map ScopeRecord.transclusion).getD false

/-- How far the evaluation of a scope has come; one that is gone is idle. -/
def state (t : ScopeTree) (id : ScopeId) : EvalState :=
  ((t.record? id).map ScopeRecord.state).getD .idle

/-- The values of a scope's parts, once they are known. -/
def values? (t : ScopeTree) (id : ScopeId) : Option (List Value) := (t.state id).values?

def isResolved (t : ScopeTree) (id : ScopeId) : Bool := (t.values? id).isSome

def results (t : ScopeTree) (id : ScopeId) : List ComputationResult :=
  ((t.record? id).map ScopeRecord.results).getD []

/-! ## Walks -/

/-- The scopes reached from one along links, each before those behind it; `fuel` bounds the length
of a path. -/
def walkWithin (t : ScopeTree) (links : ScopeRecord → List ScopeId) : (fuel : Nat) → ScopeId →
    List ScopeId
  | 0, _ => []
  | fuel + 1, id =>
      match t.record? id with
      | none => []
      | some r => id :: (links r).flatMap (walkWithin t links fuel)

/-- The scopes reached from one along links. No path is longer than the number of slots. -/
def walk (t : ScopeTree) (links : ScopeRecord → List ScopeId) (id : ScopeId) : List ScopeId :=
  t.walkWithin links t.arena.slots.size id

/-- A scope and all that it owns, from the last to the first. -/
def owned (t : ScopeTree) (id : ScopeId) : List ScopeId :=
  t.walk (fun r => r.owned.reverse) id

/-- A scope and the scopes above it; `fuel` bounds their number. -/
def upwardWithin (t : ScopeTree) : (fuel : Nat) → ScopeId → List (ScopeId × ScopeRecord)
  | 0, _ => []
  | fuel + 1, id =>
      match t.record? id with
      | none => []
      | some r =>
          (id, r) :: match r.parent with
            | none => []
            | some p => upwardWithin t fuel p

/-- A scope and the scopes above it, up to the root. -/
def upward (t : ScopeTree) (id : ScopeId) : List (ScopeId × ScopeRecord) :=
  t.upwardWithin t.arena.slots.size id

/-- The scopes above a scope, from its parent upward. -/
def ancestors (t : ScopeTree) (id : ScopeId) : List (ScopeId × ScopeRecord) :=
  match t.parent? id with
  | none => []
  | some p => t.upward p

/-! ## Scopes of a node -/

/-- The scopes of a node, those at its own place first. -/
def scopesForNode (t : ScopeTree) (node : NodeId) : List ScopeId :=
  let all := t.arena.entries.filter (·.2.node == node)
  (all.filter (!·.2.transclusion) ++ all.filter (·.2.transclusion)).map Prod.fst

/-- The scope of a node at its own place. -/
def scopeForNode? (t : ScopeTree) (node : NodeId) : Option ScopeId :=
  (t.scopesForNode node).find? (!t.isTransclusion ·)

/-! ## Descending -/

/-- The scopes reached from one, each with the context that `step` made of its owner's. -/
def descendWithin {γ : Type} (t : ScopeTree) (links : ScopeRecord → List ScopeId)
    (step : ScopeId → γ → γ) : (fuel : Nat) → γ → ScopeId → List (ScopeId × γ)
  | 0, _, _ => []
  | fuel + 1, context, id =>
      match t.record? id with
      | none => [(id, context)]
      | some r =>
          (id, context) :: (links r).flatMap (descendWithin t links step fuel (step id context))

/-- The links that a walk follows. -/
def linksOf (transclusions : Bool) (r : ScopeRecord) : List ScopeId :=
  if transclusions then r.owned else r.children

/-- A scope and the scopes below it, each after its owner and with a context made on the way to it.
Transclusions come after children, or are left out. -/
def descend {γ : Type} (t : ScopeTree) (transclusions : Bool) (step : ScopeId → γ → γ) (context : γ)
    (id : ScopeId) : List (ScopeId × γ) :=
  t.descendWithin (linksOf transclusions) step (t.arena.slots.size + 1) context id

/-- A scope and the scopes below it. -/
def below (t : ScopeTree) (transclusions : Bool) (id : ScopeId) : List ScopeId :=
  (t.descend transclusions (fun _ u => u) () id).map Prod.fst

end ScopeTree

end FormulaOutline
