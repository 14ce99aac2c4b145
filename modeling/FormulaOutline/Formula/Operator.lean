/-!
# Arithmetic operators

The four operators of formulas, with their signs and how tightly they bind.
-/

namespace FormulaOutline.Formula

inductive Operator
  | add
  | sub
  | mul
  | div
deriving DecidableEq, Repr

def Operator.symbol : Operator → Char
  | .add => '+'
  | .sub => '-'
  | .mul => '*'
  | .div => '/'

/-- Operators of higher precedence bind tighter. -/
def Operator.precedence : Operator → Nat
  | .add => 1
  | .sub => 1
  | .mul => 2
  | .div => 2

/-- All operators, in the order they are listed. -/
def Operator.all : List Operator := [.add, .sub, .mul, .div]

/-- The operator with the given sign. -/
def Operator.ofSymbol? (c : Char) : Option Operator := all.find? (·.symbol = c)

end FormulaOutline.Formula
