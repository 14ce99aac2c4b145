/-!
# Scope ids

A scope is named by a slot of the arena and the generation of the slot, so that an id of a scope
that is gone never names the scope that takes its slot.
-/

namespace FormulaOutline

structure ScopeId where
  index : Nat
  generation : UInt32
deriving DecidableEq, Repr

namespace ScopeId

/-- The slot and its generation. -/
def text (id : ScopeId) : String :=
  toString id.index ++ "v" ++ toString id.generation.toNat

/-- Earlier slots first, then earlier generations. -/
def before (a b : ScopeId) : Bool :=
  a.index < b.index || (a.index == b.index && a.generation < b.generation)

end ScopeId

end FormulaOutline
