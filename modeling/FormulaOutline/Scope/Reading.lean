import FormulaOutline.Scope.Tree
import FormulaOutline.Value.Display
import FormulaOutline.Value.Recognition

/-!
# Reading scopes

* `ScopeTree.value` is the value of a scope as a whole, `ScopeTree.typedValue?` the most specific
  of its values.
* `ScopeTree.lookup?` finds a bullet by its key, from a scope upward.
-/

namespace FormulaOutline.ScopeTree

open Formula

/-! ## Values -/

/-- One value out of the values of all parts; texts are joined. -/
def combine (values : List Value) : Value :=
  match values with
  | [] => .undefined
  | [v] => v
  | parts => .text (String.join (parts.map Value.display))

/-- A value with `follow` applied to the scope that it points to. -/
def followWith (follow : ScopeId → Value) : Value → Value
  | .scope id => follow id
  | v => v

/-- The value of a scope without the scopes that it points to. -/
def ownValue (t : ScopeTree) (id : ScopeId) : Value :=
  match t.values? id with
  | some values => combine (values.map (followWith fun _ => .undefined))
  | none => .undefined

/-- The value of a scope; a part that points to a scope has that scope's own value. -/
def value (t : ScopeTree) (id : ScopeId) : Value :=
  match t.values? id with
  | some values => combine (values.map (followWith t.ownValue))
  | none => .undefined

def valueOf (t : ScopeTree) (id : ScopeId) (index : Nat) : Value :=
  (((t.values? id).getD [])[index]?).getD .undefined

/-! ## Typed values -/

/-- The value that a literal part stands for. -/
def literalValue? : Expr → Option Value
  | .string _ s => some (recognize s)
  | _ => none

/-- The values among which the most specific one is chosen: those of the parts, or what the literal
parts stand for as long as the scope has no values. -/
def candidates (t : ScopeTree) (id : ScopeId) : List Value :=
  match t.record? id with
  | none => []
  | some r =>
      match r.state.values? with
      | some values => values.map (followWith t.value)
      | none => r.bullet.parts.filterMap literalValue?

/-- Whether a value has a type; a blank text has none. -/
def isTyped : Value → Bool
  | .text s => !Text.isBlankText s.toList
  | v => v.type?.isSome

/-- The first value with a type other than text, or else the first text. -/
def mostSpecific? (values : List Value) : Option Value :=
  let typed := values.filter isTyped
  (typed.find? (!·.isText)).or typed.head?

def typedValue? (t : ScopeTree) (id : ScopeId) : Option Value := mostSpecific? (t.candidates id)

def valueType? (t : ScopeTree) (id : ScopeId) : Option ValueType :=
  (t.typedValue? id).bind Value.type?

/-! ## Properties -/

/-- The children with a key, the first one of each key. -/
def properties (t : ScopeTree) (id : ScopeId) : List (String × ScopeId) :=
  ((t.record? id).map ScopeRecord.named).getD []

/-- The first child with a key. -/
def property? (t : ScopeTree) (id : ScopeId) (key : String) : Option ScopeId :=
  (t.properties id).lookup key

def propertyValue (t : ScopeTree) (id : ScopeId) (key : String) : Value :=
  match t.property? id key with
  | some child => t.value child
  | none => .undefined

/-! ## Names -/

/-- The scope that a name means in a scope: the first child with that key of the nearest scope
above. A scope does not find itself; the search goes on above it. -/
def lookup? (t : ScopeTree) (id : ScopeId) (name : String) : Option ScopeId :=
  (t.ancestors id).findSome? fun (ancestor, _) =>
    (t.property? ancestor name).filter (· != id)

/-- Whether a node is that of a scope or of one above it. -/
def isInScope (t : ScopeTree) (id : ScopeId) (node : NodeId) : Bool :=
  (t.upward id).any (·.2.node == node)

end FormulaOutline.ScopeTree
