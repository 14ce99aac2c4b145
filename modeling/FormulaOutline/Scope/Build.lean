import FormulaOutline.Evaluation.Error
import FormulaOutline.Scope.Blueprint
import FormulaOutline.Scope.Tree

/-!
# Building scope trees

* `Arena.firstByKey` finds the first scope of each key.
* `ScopeTree.build` makes the tree of a document.
* `ScopeTree.rebuild` makes the part of a tree below a scope anew.
* `ScopeTree.disable` disables a scope and all that it owns.
-/

namespace FormulaOutline

/-! ## Keys -/

/-- The keys of scopes with the first scope of each key, behind those that were found before. -/
def Arena.firstByKey (a : Arena ScopeRecord) :
    List ScopeId → List (String × ScopeId) → List (String × ScopeId)
  | [], found => found
  | id :: rest, found =>
      match (a.get? id).bind ScopeRecord.key? with
      | some key =>
          if found.any (·.1 == key) then firstByKey a rest found
          else firstByKey a rest (found ++ [(key, id)])
      | none => firstByKey a rest found

/-! ## Planting blueprints -/

namespace Blueprint

/-- The record of a blueprint before it owns anything. -/
def record (parent : Option ScopeId) (transclusion : Bool) : Blueprint → ScopeRecord
  | placeholder n => .fresh n parent (.literal []) true transclusion
  | scope n bullet _ _ => .fresh n parent bullet false transclusion

mutual

/-- Makes scopes of a blueprint: the scope itself, then those of its children, then those of the
nodes it refers to. -/
def plant (a : Arena ScopeRecord) (parent : Option ScopeId) (transclusion : Bool) :
    Blueprint → ScopeId × Arena ScopeRecord
  | placeholder n => a.alloc ((placeholder n).record parent transclusion)
  | scope n bullet children references =>
      let (id, a) := a.alloc ((scope n bullet children references).record parent transclusion)
      let (childIds, a) := plantAll a id false children
      let (referenceIds, a) := plantAll a id true references
      (id, a.modify id fun r =>
        { r with
          children := childIds
          transcluded := (references.map Blueprint.node).zip referenceIds
          named := a.firstByKey childIds [] })

def plantAll (a : Arena ScopeRecord) (owner : ScopeId) (transclusion : Bool) :
    List Blueprint → List ScopeId × Arena ScopeRecord
  | [] => ([], a)
  | b :: rest =>
      let (id, a) := plant a (some owner) transclusion b
      let (ids, a) := plantAll a owner transclusion rest
      (id :: ids, a)

end

end Blueprint

/-! ## Replacing a scope in its owner -/

namespace ScopeRecord

/-- Puts a new scope in the place of an old one in a list. -/
def replaceFirst (old new : ScopeId) : List ScopeId → List ScopeId
  | [] => []
  | id :: rest => if id = old then new :: rest else id :: replaceFirst old new rest

/-- Puts a new scope in the place of the scope of a node that is referred to. -/
def replaceReference (node : NodeId) (new : ScopeId) :
    List (NodeId × ScopeId) → List (NodeId × ScopeId)
  | [] => []
  | (n, id) :: rest =>
      if n = node then (n, new) :: rest else (n, id) :: replaceReference node new rest

/-- Puts the new scope of a node where the owner has the old one. -/
def splice (old new : ScopeId) (node : NodeId) (owner : ScopeRecord) : ScopeRecord :=
  if owner.children.contains old then
    { owner with children := replaceFirst old new owner.children }
  else { owner with transcluded := replaceReference node new owner.transcluded }

end ScopeRecord

namespace ScopeTree

/-- The tree of a document, with nothing evaluated. -/
def build (d : Document) : ScopeTree :=
  let (root, arena) := (d.unfold [] d.root).plant .empty none false
  ⟨arena, root⟩

/-! ## Changing one scope -/

def modify (t : ScopeTree) (id : ScopeId) (f : ScopeRecord → ScopeRecord) : ScopeTree :=
  { t with arena := t.arena.modify id f }

/-- Changes several scopes. -/
def modifyAll (t : ScopeTree) (ids : List ScopeId) (f : ScopeRecord → ScopeRecord) : ScopeTree :=
  ids.foldl (fun t id => t.modify id f) t

/-- Drops scopes, the first one first. -/
def freeAll (t : ScopeTree) (ids : List ScopeId) : ScopeTree :=
  { t with arena := ids.foldl (fun a id => (a.free id).2) t.arena }

/-- Finds the first child of each key of a scope anew. -/
def reindex (t : ScopeTree) (id : ScopeId) : ScopeTree :=
  t.modify id fun r => { r with named := t.arena.firstByKey r.children [] }

/-! ## Disabling -/

def disable (t : ScopeTree) (id : ScopeId) : ScopeTree := t.modifyAll (t.owned id) .disable

/-! ## Rebuilding -/

/-- Makes the scope of a document's node anew in the place of an old scope, with all that it owns.
Gives the new scope, the scopes that are gone, and the tree. -/
def rebuild (t : ScopeTree) (old : ScopeId) (d : Document) :
    Except EvalError (ScopeId × List ScopeId × ScopeTree) :=
  match t.record? old with
  | none => .error (.scopeNotFound old.text)
  | some r =>
      let path := (t.ancestors old).map (·.2.node)
      let gone := t.owned old
      let cleared := t.freeAll gone
      let (new, arena) := (d.unfold path r.node).plant cleared.arena r.parent r.transclusion
      let grown : ScopeTree := { cleared with arena }
      match r.parent with
      | some owner => .ok (new, gone, (grown.modify owner (.splice old new r.node)).reindex owner)
      | none => .ok (new, gone, { grown with root := new })

end ScopeTree

end FormulaOutline
