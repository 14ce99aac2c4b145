import FormulaOutline.Scope.Tree
import FormulaOutline.Value.Display

/-!
# Descriptions of scopes

Short texts that name scopes, their trees and their results.
-/

namespace FormulaOutline

/-- An optional text as it is described. -/
def describeOption : Option String → String
  | some s => Value.labelled "Some" s
  | none => "None"

def ComputationResult.describe (r : ComputationResult) : String :=
  "ComputationResult " ++ Value.braced
    (" name: " ++ Text.quoted r.name ++ ", data: " ++ r.data.describe ++ ", publisher: " ++
      describeOption (r.publisher.map Value.describeScope) ++ ", epoch: " ++ toString r.epoch ++
      " ")

namespace ScopeTree

/-- The id of a node as it is described. -/
def describeNode (node : Option NodeId) : String :=
  describeOption (node.map fun n => Value.labelled "NodeId" (Text.quoted n))

/-- A scope by its id and its node. -/
def describeScope (t : ScopeTree) (id : ScopeId) : String :=
  "ScopeHandle " ++ Value.braced
    (" id: " ++ Value.describeScope id ++ ", node: " ++ describeNode (t.node? id) ++ " ")

/-- A tree by its root and its size. -/
def describe (t : ScopeTree) : String :=
  "ScopeTree " ++ Value.braced
    (" root: " ++ Value.describeScope t.root ++ ", scopes: " ++ toString t.size ++ " ")

end ScopeTree

end FormulaOutline
