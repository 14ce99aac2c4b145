import FormulaOutline.Document.Basic
import FormulaOutline.Error
import FormulaOutline.Pattern.Learn
import FormulaOutline.Pattern.Shape

/-!
# Applying patterns

* `Pattern.synthesize` makes the formula that belongs to an anchor.
* `Pattern.apply` adds the formulas that a document lacks.
* `repeatFormula` learns a pattern from an example and applies it.
-/

namespace FormulaOutline

open Formula

namespace Pattern

/-! ## Making formulas -/

def findNode? (t : ScopeTree) (site : ScopeId) : Rule → Option NodeId
  | .anchor => t.node? site
  | .closestAncestor type =>
      ((t.ancestors site).find? fun (above, _) => t.valueType? above = some type).map (·.2.node)
  | .prevSibling type => do
      let parent ← t.parent? site
      let index ← t.indexInParent? site
      let found ← ((t.children parent).take index).reverse.find? (t.valueType? · = some type)
      t.node? found
  | .nextSibling type => do
      let parent ← t.parent? site
      let index ← t.indexInParent? site
      let found ← ((t.children parent).drop (index + 1)).find? (t.valueType? · = some type)
      t.node? found
  | .literal _ => none

def argument? (t : ScopeTree) (site : ScopeId) : Rule → Option Expr
  | .literal e => some e
  | rule => (findNode? t site rule).map (.reference .none)

/-- The formula that belongs to a scope, if every rule finds something. -/
def synthesize (p : Pattern) (t : ScopeTree) (site : ScopeId) : Option Expr := do
  let args ← p.arguments.mapM fun (name, rule) =>
    (argument? t site rule).map fun value => (⟨name, value, .none⟩ : Argument Expr)
  some (.call .none p.function args)

/-! ## Adding formulas -/

/-- The scopes at which formulas belong, in the order of the outline. -/
def sites (p : Pattern) (t : ScopeTree) : List ScopeId :=
  (t.below false t.root).filter fun id =>
    !t.isPlaceholder id && t.valueType? id == some p.anchor.type && t.node? id != some p.learnedFrom

/-- The place beside or below a node of a document. -/
def slot? (d : Document) (placement : Placement) (node : NodeId) : Option (NodeId × Nat) :=
  match placement with
  | .child => (d.node? node).map fun n => (node, n.children.length)
  | .above => beside 0
  | .below => beside 1
where
  /-- The place of the node among its siblings, moved by an offset. -/
  beside (offset : Nat) : Option (NodeId × Nat) := do
    let parent ← d.parent? node
    let n ← d.node? parent
    let index ← n.children.findIdx? (· == node)
    some (parent, index + offset)

/-- Whether a child of a node is a call of the same shape. -/
def hasEquivalent (d : Document) (parent : NodeId) (formula : Expr) : Bool :=
  match CallShape.of? formula, d.node? parent with
  | some wanted, some n =>
      n.children.any fun child =>
        (d.node? child).any fun c => (CallShape.ofText? c.value).any (· == wanted)
  | _, _ => false

/-- The formula to be added at a scope, and its place. -/
def plan? (p : Pattern) (t : ScopeTree) (d : Document) (site : ScopeId) :
    Option (Expr × NodeId × NodeId × Nat) := do
  let formula ← p.synthesize t site
  let node ← t.node? site
  let (parent, index) ← slot? d p.anchor.placement node
  if hasEquivalent d parent formula then none else some (formula, node, parent, index)

/-- A document with the ids it may still use and what was added to it. -/
structure Progress where
  document : Document
  supply : IdSupply
  insertions : List Insertion
deriving DecidableEq, Repr

/-- Adds the formula that belongs to a scope, unless there is one. -/
def applyAt (p : Pattern) (t : ScopeTree) (site : ScopeId) (progress : Progress) :
    Except DocumentError Progress :=
  match p.plan? t progress.document site with
  | none => .ok progress
  | some (formula, anchor, parent, index) => do
      let text := (Expr.inline .none formula).pretty
      let (node, supply) := progress.supply.next
      let document ← (progress.document.createNode node text).insertChild parent index node
      .ok ⟨document, supply, progress.insertions ++ [⟨node, parent, index, text, anchor⟩]⟩

/-- Adds the formulas that a document lacks. -/
def apply (p : Pattern) (t : ScopeTree) (d : Document) (supply : IdSupply) :
    Except DocumentError Progress :=
  (p.sites t).foldlM (fun progress site => p.applyAt t site progress) ⟨d, supply, []⟩

end Pattern

/-- Adds formulas like that of a scope wherever they belong. -/
def repeatFormula (t : ScopeTree) (functions : Registry) (id : ScopeId) (d : Document)
    (supply : IdSupply) : Except OutlineError Pattern.Progress := do
  let p ← (Pattern.learn t functions id).mapError .pattern
  (p.apply t d supply).mapError .document

end FormulaOutline
