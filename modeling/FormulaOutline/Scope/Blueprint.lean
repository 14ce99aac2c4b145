import FormulaOutline.Document.Basic
import FormulaOutline.Formula.Bullet

/-!
# Blueprints

A blueprint is the shape of a scope tree before its scopes have ids: the document unfolded along
children and references, cut where a node would stand below itself.

* `Document.unfold` gives the blueprint of a node below given nodes.
-/

namespace FormulaOutline

open Formula

inductive Blueprint
  /-- A node that is missing or that stands below itself. -/
  | placeholder (node : NodeId)
  /-- A node with its children and with the nodes that its bullet refers to. -/
  | scope (node : NodeId) (bullet : Bullet) (children references : List Blueprint)

namespace Blueprint

def node : Blueprint → NodeId
  | placeholder n => n
  | scope n _ _ _ => n

end Blueprint

namespace Document

/-- Unfolds a node below the nodes of `path`, at most `fuel` levels. -/
def unfoldWithin (d : Document) : (fuel : Nat) → (path : List NodeId) → NodeId → Blueprint
  | 0, _, id => .placeholder id
  | fuel + 1, path, id =>
      if path.contains id then .placeholder id
      else
        match d.node? id with
        | none => .placeholder id
        | some n =>
            let bullet := bulletOrLiteral n.value.toList
            .scope id bullet (n.children.map (unfoldWithin d fuel (id :: path)))
              (bullet.referencedIds.map (unfoldWithin d fuel (id :: path)))

/-- Unfolds a node below the nodes of `path`. Each level takes another node of the document, so
there are no more levels than nodes before a placeholder ends every branch. -/
def unfold (d : Document) (path : List NodeId) (id : NodeId) : Blueprint :=
  d.unfoldWithin (d.size + 1) path id

end Document

end FormulaOutline
