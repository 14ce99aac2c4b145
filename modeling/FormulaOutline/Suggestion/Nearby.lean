import FormulaOutline.Config.Basic
import FormulaOutline.Evaluation.Function

/-!
# Parameters near a scope

* `ScopeTree.visits` lists the scopes near a scope with their distances.
* `ScopeTree.parameters` lists the typed values among them, the nearest one of each node.
* `ScopeTree.suggestions` ranks what functions make of them.
-/

namespace FormulaOutline

/-- A scope near another one. -/
structure Visit where
  relationship : Relationship
  distance : Nat
  scope : ScopeId
deriving DecidableEq, Repr

namespace ScopeTree

/-! ## Scopes near a scope -/

/-- A scope and all that it owns, at most `levels` levels deep, with the level of each. -/
def levelsBelow (t : ScopeTree) : (levels : Nat) → ScopeId → List (ScopeId × Nat)
  | 0, id => [(id, 0)]
  | levels + 1, id =>
      (id, 0) ::
        (((t.record? id).map ScopeRecord.owned).getD []).flatMap fun owned =>
          (levelsBelow t levels owned).map fun (below, level) => (below, level + 1)

/-- Visits of a scope and of what it owns; the scope itself has the given distance. -/
def visitsBelow (t : ScopeTree) (relationship : Relationship) (distance levels : Nat)
    (id : ScopeId) : List Visit :=
  (t.levelsBelow levels id).map fun (below, level) => ⟨relationship, distance + level, below⟩

/-- Visits of the scopes above, and of what their formulas refer to. -/
def visitsAbove (t : ScopeTree) (bounds : SearchBounds) (id : ScopeId) : List Visit :=
  (((t.ancestors id).take bounds.maxAncestorDepth).zipIdx 1).flatMap fun ((ancestor, r), hops) =>
    ⟨.parent, hops, ancestor⟩ ::
      r.transcluded.flatMap fun (_, target) =>
        t.visitsBelow .parent (hops + 1) (bounds.maxSubtreeDepth - 1) target

/-- Visits of the siblings on both sides, the nearest ones first. -/
def visitsBeside (t : ScopeTree) (bounds : SearchBounds) (id : ScopeId) : List Visit :=
  match t.parent? id, t.indexInParent? id with
  | some parent, some index =>
      let siblings := t.children parent
      let sibling (relationship : Relationship) (offset : Nat) (place : Option Nat) : List Visit :=
        match place.bind fun i => siblings[i]? with
        | some s => t.visitsBelow relationship offset bounds.maxSubtreeDepth s
        | none => []
      (List.range' 1 (min bounds.maxSiblingDistance siblings.length)).flatMap fun offset =>
        sibling .prev offset (if offset ≤ index then some (index - offset) else none) ++
          sibling .next offset (some (index + offset))
  | _, _ => []

/-- The scopes near a scope: what it owns, those above it, and those beside it. -/
def visits (t : ScopeTree) (bounds : SearchBounds) (id : ScopeId) : List Visit :=
  t.visitsBelow .self 0 bounds.maxSubtreeDepth id ++ t.visitsAbove bounds id ++
    t.visitsBeside bounds id

/-! ## Parameters -/

/-- The places among the children on the way from the root to a scope. -/
def placePath (t : ScopeTree) (id : ScopeId) : List (Option Nat) :=
  ((t.upward id).map fun (above, _) => t.indexInParent? above).reverse

/-- The typed value that a visit finds; texts are too common to be of use. -/
def parameter? (t : ScopeTree) (v : Visit) : Option Parameter :=
  match t.record? v.scope, t.typedValue? v.scope with
  | some r, some value =>
      match value.type? with
      | some type =>
          if r.placeholder || type = .text then none
          else
            some
              { relationship := v.relationship
                distance := v.distance
                type, value
                node := r.node
                scope := v.scope
                path := t.placePath v.scope }
      | none => none
  | _, _ => none

/-- Adds a parameter, in the place of one of the same node that is farther away. -/
def keepNearest (p : Parameter) : List Parameter → List Parameter
  | [] => [p]
  | q :: rest =>
      if q.node = p.node then (if q.distance ≤ p.distance then q else p) :: rest
      else q :: keepNearest p rest

/-- The typed values near a scope, one for each node, the nearest ones first. -/
def parameters (t : ScopeTree) (bounds : SearchBounds) (id : ScopeId) : List Parameter :=
  let found := ((t.visits bounds id).filterMap t.parameter?).foldl (fun ps p => keepNearest p ps) []
  found.mergeSort fun p q => p.distance ≤ q.distance

end ScopeTree

/-! ## Suggestions -/

namespace Suggestion

/-- Better ranks first, suggestions without a rank last. -/
def ranksBefore (a b : Suggestion) : Bool :=
  match a.rank, b.rank with
  | some m, some n => m ≤ n
  | none, some _ => false
  | _, none => true

/-- The first suggestion of each expression. -/
def distinct : List Suggestion → List Suggestion
  | [] => []
  | s :: rest => s :: (distinct rest).filter (·.expression ≠ s.expression)

end Suggestion

/-- What a function suggests. -/
def Function.offers (f : Function) (parameters : List Parameter) : List Suggestion :=
  f.suggestions parameters ++ (f.autocomplete.map fun s => { s with rank := none }).toList

/-- The suggestions of all functions for a scope, the best ones first. -/
def ScopeTree.suggestions (t : ScopeTree) (functions : Registry) (bounds : SearchBounds)
    (id : ScopeId) : List Suggestion :=
  let parameters := t.parameters bounds id
  (Suggestion.distinct (functions.flatMap (·.offers parameters))).mergeSort Suggestion.ranksBefore

end FormulaOutline
