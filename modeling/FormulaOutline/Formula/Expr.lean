import FormulaOutline.Formula.Operator
import FormulaOutline.Formula.Token

/-!
# Expressions

The trees of formulas. Every node carries the span it was read from.

* `Expr.referencedIds` lists the nodes that an expression refers to, each once.
* `Expr.isConstant` holds when nothing outside the expression can change its value.
* `Expr.withoutSpans` forgets where an expression stands.
-/

namespace FormulaOutline.Formula

/-- An argument of a call; a named one is written `name: value`. -/
structure Argument (ε : Type) where
  name : Option String
  value : ε
  span : Span
deriving BEq, Repr

inductive Expr
  | string (span : Span) (value : String)
  | number (span : Span) (value : Float)
  /-- The value of an argument that is left out after its name. -/
  | undefined (span : Span)
  /-- Another node, by its id. -/
  | reference (span : Span) (id : NodeId)
  /-- Another bullet, by its key. -/
  | name (span : Span) (name : String)
  | field (span : Span) (object field : Expr)
  | call (span : Span) (function : String) (args : List (Argument Expr))
  | binary (span : Span) (op : Operator) (lhs rhs : Expr)
  /-- An expression between braces. -/
  | inline (span : Span) (inner : Expr)
deriving Repr

namespace Expr

instance : Inhabited Expr := ⟨undefined .none⟩

/-! ## Comparing -/

mutual

/-- Whether two expressions are the same, with the spans. -/
def same : Expr → Expr → Bool
  | string s v, string s' v' => s == s' && v == v'
  | number s x, number s' x' => s == s' && x == x'
  | undefined s, undefined s' => s == s'
  | reference s i, reference s' i' => s == s' && i == i'
  | name s n, name s' n' => s == s' && n == n'
  | field s o f, field s' o' f' => s == s' && same o o' && same f f'
  | call s f a, call s' f' a' => s == s' && f == f' && sameArguments a a'
  | binary s op l r, binary s' op' l' r' => s == s' && op == op' && same l l' && same r r'
  | inline s i, inline s' i' => s == s' && same i i'
  | _, _ => false

def sameArguments : List (Argument Expr) → List (Argument Expr) → Bool
  | [], [] => true
  | a :: rest, b :: rest' =>
      a.name == b.name && same a.value b.value && a.span == b.span && sameArguments rest rest'
  | _, _ => false

end

instance : BEq Expr := ⟨same⟩

/-! ## Spans -/

def span : Expr → Span
  | string s _ => s
  | number s _ => s
  | undefined s => s
  | reference s _ => s
  | name s _ => s
  | field s _ _ => s
  | call s _ _ => s
  | binary s _ _ _ => s
  | inline s _ => s

def withSpan (s : Span) : Expr → Expr
  | string _ v => string s v
  | number _ v => number s v
  | undefined _ => undefined s
  | reference _ i => reference s i
  | name _ n => name s n
  | field _ o f => field s o f
  | call _ f a => call s f a
  | binary _ o l r => binary s o l r
  | inline _ i => inline s i

mutual

def withoutSpans : Expr → Expr
  | string _ v => string .none v
  | number _ v => number .none v
  | undefined _ => undefined .none
  | reference _ i => reference .none i
  | name _ n => name .none n
  | field _ o f => field .none (withoutSpans o) (withoutSpans f)
  | call _ f a => call .none f (argumentsWithoutSpans a)
  | binary _ o l r => binary .none o (withoutSpans l) (withoutSpans r)
  | inline _ i => inline .none (withoutSpans i)

def argumentsWithoutSpans : List (Argument Expr) → List (Argument Expr)
  | [] => []
  | ⟨n, v, _⟩ :: rest => ⟨n, withoutSpans v, .none⟩ :: argumentsWithoutSpans rest

end

/-! ## What an expression depends on -/

mutual

/-- The nodes that an expression refers to, in order, with repetitions. -/
def references : Expr → List NodeId
  | string .. => []
  | number .. => []
  | undefined _ => []
  | reference _ i => [i]
  | name .. => []
  | field _ o f => references o ++ references f
  | call _ _ a => argumentReferences a
  | binary _ _ l r => references l ++ references r
  | inline _ i => references i

def argumentReferences : List (Argument Expr) → List NodeId
  | [] => []
  | a :: rest => references a.value ++ argumentReferences rest

end

/-- The nodes that an expression refers to, each at its first occurrence. -/
def referencedIds (e : Expr) : List NodeId := e.references.eraseDups

mutual

def isConstant : Expr → Bool
  | string .. => true
  | number .. => true
  | undefined _ => true
  | reference .. => false
  | name .. => false
  | field _ o f => isConstant o && isConstant f
  | call _ _ a => areConstant a
  | binary _ _ l r => isConstant l && isConstant r
  | inline _ i => isConstant i

def areConstant : List (Argument Expr) → Bool
  | [] => true
  | a :: rest => isConstant a.value && areConstant rest

end

/-! ## Shapes -/

def isCall : Expr → Bool
  | call .. => true
  | _ => false

def isInline : Expr → Bool
  | inline .. => true
  | _ => false

def isUndefined : Expr → Bool
  | undefined _ => true
  | _ => false

end Expr

/-- Whether the argument is a name without a value. -/
def Argument.isMissing (a : Argument Expr) : Bool := a.value.isUndefined

end FormulaOutline.Formula
