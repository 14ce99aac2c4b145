import FormulaOutline.Formula.Token

/-!
# Errors of documents
-/

namespace FormulaOutline

/-- What is wrong with a change of the tree of nodes. -/
inductive StructureFault
  | idExists
  | ownDescendant (parent : NodeId)
  | notAChild (child : NodeId)
  | other (reason : String)
deriving DecidableEq, Repr

def StructureFault.reason : StructureFault → String
  | .idExists => "node id already exists"
  | .ownDescendant parent => "cannot insert under its own descendant " ++ parent
  | .notAChild child => child ++ " is not a child"
  | .other reason => reason

/-- What is wrong with a line of an outline. -/
inductive OutlineFault
  | oddIndent
  | skippedLevel
  | noMarker
  | idExists
  | other (reason : String)
deriving DecidableEq, Repr

def OutlineFault.reason : OutlineFault → String
  | .oddIndent => "indentation must be a multiple of two"
  | .skippedLevel => "indentation skips a level"
  | .noMarker => "expected '- ' bullet marker"
  | .idExists => "duplicate node id"
  | .other reason => reason

inductive DocumentError
  | nodeNotFound (id : NodeId)
  | invalidStructure (id : NodeId) (fault : StructureFault)
  | transclusionRejected (site target : NodeId)
  /-- Lines are counted from one. -/
  | invalidOutline (line : Nat) (fault : OutlineFault)
deriving DecidableEq, Repr

def DocumentError.message : DocumentError → String
  | .nodeNotFound id => "Node not found: " ++ id
  | .invalidStructure id fault => "Invalid document structure at " ++ id ++ ": " ++ fault.reason
  | .transclusionRejected site target =>
      "Transclusion of " ++ target ++ " rejected inside " ++ site ++ ": target is already in scope"
  | .invalidOutline line fault =>
      "Invalid outline at line " ++ toString line ++ ": " ++ fault.reason

end FormulaOutline
