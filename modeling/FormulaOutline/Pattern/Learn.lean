import FormulaOutline.Evaluation.Function
import FormulaOutline.Pattern.Basic

/-!
# Learning patterns

* `Pattern.learn` makes a pattern of an example formula.
-/

namespace FormulaOutline.Pattern

open Formula

/-! ## Places -/

/-- Whether two scopes have the same parent, or both have none. -/
def haveSameParent (t : ScopeTree) (a b : ScopeId) : Bool := t.parent? a == t.parent? b

/-- Where a formula stands, seen from another scope, if it stands right beside or below it. -/
def placement? (t : ScopeTree) (formula anchor : ScopeId) : Option Placement :=
  if t.parent? formula = some anchor then some .child
  else if !haveSameParent t formula anchor then none
  else
    match t.indexInParent? formula, t.indexInParent? anchor with
    | some f, some a =>
        if a + 1 = f then some .below else if f + 1 = a then some .above else none
    | _, _ => none

/-! ## The anchor -/

/-- The declared argument that an argument fills: the one of its name, or else of its place. -/
def declared? (parameters : List ParameterSpec) (arg : Argument Expr) (index : Nat) :
    Option ParameterSpec :=
  match arg.name with
  | some name => parameters.find? (·.name == name)
  | none => parameters[index]?

/-- The anchor that an argument gives: a typed scope beside or above the formula, of the declared
type if there is one. -/
def anchor? (t : ScopeTree) (parameters : List ParameterSpec) (site : ScopeId)
    (arg : Argument Expr) (index : Nat) : Option (ScopeId × Anchor) :=
  match arg.value with
  | .reference _ target => do
      let scope ← t.scopeForNode? target
      let actual ← t.valueType? scope
      let spec := (declared? parameters arg index).getD ⟨arg.name.getD (toString index), actual⟩
      if actual ≠ spec.type then none
      else
        let placement ← placement? t site scope
        some (scope, ⟨spec.name, spec.type, placement⟩)
  | _ => none

/-- The first argument that gives an anchor, by its place. -/
def findAnchor? (t : ScopeTree) (parameters : List ParameterSpec) (site : ScopeId)
    (args : List (Argument Expr)) : Option (Nat × ScopeId × Anchor) :=
  args.zipIdx.findSome? fun (arg, index) =>
    (anchor? t parameters site arg index).map (index, ·)

/-! ## Rules -/

/-- Whether a scope is above another one with no scope of its type between them. -/
def isClosestAncestor (t : ScopeTree) (type : ValueType) (scope anchor : ScopeId) : Bool :=
  let ends (above : ScopeId) : Bool := above = scope || t.valueType? above = some type
  match (t.ancestors anchor).find? fun (above, _) => ends above with
  | some (above, _) => above = scope
  | none => false

/-- The rule that finds a sibling from the anchor, if no sibling of its type is between them. -/
def siblingRule? (t : ScopeTree) (type : ValueType) (scope anchor : ScopeId) : Option Rule := do
  let parent ← t.parent? anchor
  if t.parent? scope ≠ some parent then none
  let a ← t.indexInParent? anchor
  let r ← t.indexInParent? scope
  let low := min a r
  let between := ((t.children parent).drop (low + 1)).take (max a r - low - 1)
  if between.any (t.valueType? · = some type) then none
  else if r < a then some (.prevSibling type)
  else if a < r then some (.nextSibling type)
  else none

/-- The rule that finds an argument of the example from its anchor. An argument that has no clear
relation to the anchor is taken as it is. -/
def ruleFor (t : ScopeTree) (anchor : ScopeId) (arg : Argument Expr) : Rule :=
  let found : Option Rule :=
    match arg.value with
    | .reference _ target => do
        let scope ← t.scopeForNode? target
        let type ← t.valueType? scope
        if isClosestAncestor t type scope anchor then some (.closestAncestor type)
        else siblingRule? t type scope anchor
    | _ => none
  found.getD (.literal arg.value.withoutSpans)

/-! ## Learning -/

/-- The scope at the formula's own place, from which relations are read. -/
def siteOf (t : ScopeTree) (id : ScopeId) (node : NodeId) : ScopeId :=
  if t.isTransclusion id then (t.scopeForNode? node).getD id else id

/-- Makes a pattern of a formula that is a single call. -/
def learn (t : ScopeTree) (functions : Registry) (id : ScopeId) : Except PatternError Pattern :=
  let node := (t.node? id).getD ""
  let site := siteOf t id node
  match (t.record? site).bind fun r => r.bullet.singleCall? with
  | some (.call _ function args) =>
      let parameters := ((functions.find? function).map Function.parameters).getD []
      match findAnchor? t parameters site args with
      | some (place, scope, anchor) =>
          let arguments := args.zipIdx.map fun (arg, index) =>
            (arg.name, if index = place then .anchor else ruleFor t scope arg)
          .ok ⟨function, anchor, arguments, node⟩
      | none => .error (.noAnchor function node)
  | _ => .error (.notAFormula node)

end FormulaOutline.Pattern
