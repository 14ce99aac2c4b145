import FormulaOutline.Scope.Reading
import FormulaOutline.View.Value

/-!
# Views of scopes

* `ScopeTree.view` shows a scope, `ScopeTree.viewBelow` all scopes below one.
* `ScopeTree.viewResults` shows the results on a scope.
-/

namespace FormulaOutline

/-! ## Results -/

/-- Results from outside before those of scopes, in the order of the scopes. -/
def ComputationResult.publisherBefore (a b : Option ScopeId) : Bool :=
  match a, b with
  | none, some _ => true
  | some x, some y => x.before y
  | _, none => false

/-- The order in which results are shown: by publisher, then by name. -/
def ComputationResult.showsBefore (a b : ComputationResult) : Bool :=
  publisherBefore a.publisher b.publisher || (a.publisher == b.publisher && !(b.name < a.name))

def ComputationResult.view (r : ComputationResult) : Json :=
  .object
    [("name", .string r.name), ("data", r.data.view), ("epoch", .natural r.epoch),
     ("publisher", .ofOption ScopeId.view r.publisher)]

def EvalState.name : EvalState → String
  | idle => "idle"
  | pending => "pending"
  | resolved _ => "resolved"

namespace ScopeTree

def viewResults (t : ScopeTree) (id : ScopeId) : Json :=
  .list ComputationResult.view ((t.results id).mergeSort ComputationResult.showsBefore)

/-! ## Scopes -/

/-- A letter for each of: disabled, placeholder, transclusion. -/
def flags (t : ScopeTree) (id : ScopeId) : String :=
  (if t.isDisabled id then "d" else "") ++ (if t.isPlaceholder id then "p" else "") ++
    (if t.isTransclusion id then "t" else "")

def viewPlace (t : ScopeTree) (id : ScopeId) : Json :=
  .array [id.view, .ofOption .string (t.node? id)]

/-- Scopes with the names that lead to them. -/
def viewNamed (scopes : List (String × ScopeId)) : Json :=
  .list (fun (name, id) => .array [.string name, id.view]) scopes

/-- Everything about a scope. -/
def viewFields (t : ScopeTree) (id : ScopeId) : List (String × Json) :=
  [("id", id.view), ("node", .ofOption .string (t.node? id)),
   ("parent", .ofOption ScopeId.view (t.parent? id)), ("key", .ofOption .string (t.key? id)),
   ("index", .ofOption .natural (t.indexInParent? id)), ("flags", .string (t.flags id)),
   ("state", .string (t.state id).name),
   ("values", .ofOption (.list Value.view) (t.values? id)),
   ("typed", .ofOption Value.view (t.typedValue? id)),
   ("type", .ofOption ValueType.view (t.valueType? id)),
   ("children", .list ScopeId.view (t.children id)),
   ("transcluded", viewNamed (t.transcluded id)),
   ("props", viewNamed (t.properties id))] ++ (t.value id).shown ++
    (if (t.results id).isEmpty then [] else [("results", t.viewResults id)])

def view (t : ScopeTree) (id : ScopeId) : Json := .object (t.viewFields id)

def viewBelow (t : ScopeTree) (id : ScopeId) : Json :=
  .list (fun (below, depth) => .object (("depth", .natural depth) :: t.viewFields below))
    (t.descend true (fun _ depth => depth + 1) 0 id)

def viewValues (t : ScopeTree) (id : ScopeId) : Json :=
  .list (fun below => .array [.ofOption .string (t.node? below), (t.value below).view])
    (t.below true id)

def viewScopesOf (t : ScopeTree) (node : NodeId) : Json :=
  .list
    (fun id =>
      .array [id.view, .string (t.flags id), .ofOption t.viewPlace (t.parent? id)])
    (t.scopesForNode node)

/-- A scope and all below it, each by the nodes on the way to it. -/
def viewPaths (t : ScopeTree) (transclusions : Bool) (id : ScopeId) : Json :=
  let step (id : ScopeId) (path : String) : String := path ++ ">" ++ (t.node? id).getD ""
  .list (fun (below, path) => .string (step below path)) (t.descend transclusions step "" id)

def viewValuesOf (t : ScopeTree) (type : ValueType) (id : ScopeId) : Json :=
  .list Value.view ((t.below true id).filterMap fun below =>
    (t.typedValue? below).filter fun v => v.type? == some type)

end ScopeTree

end FormulaOutline
