import FormulaOutline.Document.Error

/-!
# Documents

A document is a forest of nodes with texts, one of which is the root. Nodes that are not below the
root are detached.

* `Document.node?` and `Document.parent?` read it.
* `Document.createNode`, `insertChild`, `removeChild`, `setValue` and `addChild` change it; each
  change that succeeds raises the version by one.
-/

namespace FormulaOutline

structure Node where
  id : NodeId
  value : String
  children : List NodeId
deriving DecidableEq, Repr

def Node.without (n : Node) (child : NodeId) : Node :=
  { n with children := n.children.filter (· != child) }

/-- A node with a child at a place among its children, or at their end. -/
def Node.withChild (n : Node) (index : Nat) (child : NodeId) : Node :=
  { n with children := n.children.take index ++ child :: n.children.drop index }

/-! ## New ids -/

/-- How many ids have been generated. -/
structure IdSupply where
  issued : Nat
deriving DecidableEq, Repr

namespace IdSupply

def start : IdSupply := ⟨0⟩

/-- The id with the given number: a fixed part, then at least twelve digits. -/
def nameOf (n : Nat) : NodeId :=
  let digits := Nat.toDigits 10 n
  "00000000-0000-7000-8000-" ++ String.ofList (List.replicate (12 - digits.length) '0' ++ digits)

/-- A new id. -/
def next (s : IdSupply) : NodeId × IdSupply := (nameOf (s.issued + 1), ⟨s.issued + 1⟩)

end IdSupply

/-! ## Documents -/

structure Document where
  root : NodeId
  /-- All nodes, in the order in which they were added. -/
  nodes : List Node
  /-- The number of changes. -/
  version : Nat
deriving DecidableEq, Repr

namespace Document

/-- A document of a root without children. -/
def ofRoot (id : NodeId) (value : String) : Document := ⟨id, [⟨id, value, []⟩], 0⟩

def empty : Document := ofRoot "root" ""

/-! ## Reading -/

def node? (d : Document) (id : NodeId) : Option Node := d.nodes.find? (·.id == id)

def contains (d : Document) (id : NodeId) : Bool := d.nodes.any (·.id == id)

/-- The node that has a given child. -/
def parent? (d : Document) (id : NodeId) : Option NodeId :=
  (d.nodes.find? (·.children.contains id)).map Node.id

def size (d : Document) : Nat := d.nodes.length

/-- A node, or the error that it is not there. -/
def find (d : Document) (id : NodeId) : Except DocumentError Node :=
  match d.node? id with
  | some n => .ok n
  | none => .error (.nodeNotFound id)

/-- The parent of a node, its parent, and so on; `fuel` bounds their number. -/
def parentChain (d : Document) : Nat → NodeId → List NodeId
  | 0, _ => []
  | fuel + 1, id =>
      match d.parent? id with
      | some p => p :: parentChain d fuel p
      | none => []

/-- The nodes above a node, from its parent upward. -/
def ancestors (d : Document) (id : NodeId) : List NodeId := d.parentChain d.size id

/-- Whether a node is another one or above it. -/
def isSelfOrAncestor (d : Document) (candidate id : NodeId) : Bool :=
  candidate == id || (d.ancestors id).contains candidate

/-! ## Changing -/

/-- Changes the node with the given id. -/
def update (d : Document) (id : NodeId) (f : Node → Node) : Document :=
  { d with nodes := d.nodes.map fun n => if n.id = id then f n else n }

def bump (d : Document) : Document := { d with version := d.version + 1 }

/-- Adds a detached node without children. -/
def append (d : Document) (id : NodeId) (value : String) : Document :=
  { d with nodes := d.nodes ++ [⟨id, value, []⟩] }

/-- Adds a detached node under a new id. -/
def createNode (d : Document) (id : NodeId) (value : String) : Document := (d.append id value).bump

/-- Takes a node away from its parent, if it has one. -/
def detach (d : Document) (child : NodeId) : Document :=
  match d.parent? child with
  | some p => d.update p (·.without child)
  | none => d

/-- Puts a node under another one at a place among its children; it is moved if it has a parent. -/
def insertChild (d : Document) (parent : NodeId) (index : Nat) (child : NodeId) :
    Except DocumentError Document := do
  let _ ← d.find parent
  let _ ← d.find child
  if d.isSelfOrAncestor child parent then
    .error (.invalidStructure child (.ownDescendant parent))
  else .ok ((d.detach child).update parent (·.withChild index child)).bump

/-- Takes a node away from its parent. -/
def removeChild (d : Document) (parent child : NodeId) : Except DocumentError Document := do
  let node ← d.find parent
  if node.children.contains child then .ok (d.update parent (·.without child)).bump
  else .error (.invalidStructure parent (.notAChild child))

def setValue (d : Document) (id : NodeId) (value : String) : Except DocumentError Document := do
  let _ ← d.find id
  .ok (d.update id fun n => { n with value }).bump

def addChild (d : Document) (parent id : NodeId) (value : String) :
    Except DocumentError Document := do
  if d.contains id then .error (.invalidStructure id .idExists)
  else
    let node ← d.find parent
    (d.append id value).insertChild parent node.children.length id

end Document

end FormulaOutline
