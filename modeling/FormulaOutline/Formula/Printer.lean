import FormulaOutline.Formula.Expr

/-!
# Writing expressions

The canonical text of an expression: one space around operators, `name: value` for arguments, and
parentheses only where reading would group otherwise.
-/

namespace FormulaOutline.Formula

/-- How a character is written in a string literal. -/
def escapeChar : Char → List Char
  | '\\' => ['\\', '\\']
  | '"' => ['\\', '"']
  | '\n' => ['\\', 'n']
  | '\t' => ['\\', 't']
  | c => [c]

def escape (s : List Char) : List Char := s.flatMap escapeChar

namespace Expr

/-- How tightly an expression binds; only operators bind loosely. -/
def precedence? : Expr → Option Nat
  | binary _ op _ _ => some op.precedence
  | _ => none

/-- Whether an operand on the left of an operator needs parentheses. -/
def looserThan (op : Operator) (e : Expr) : Bool := e.precedence?.any (· < op.precedence)

/-- Whether an operand on the right of an operator needs parentheses. -/
def notTighterThan (op : Operator) (e : Expr) : Bool := e.precedence?.any (· ≤ op.precedence)

/-- Parentheses around a text where they are needed. -/
def parenthesized (needed : Bool) (text : List Char) : List Char :=
  if needed then '(' :: text ++ [')'] else text

mutual

/-- The canonical text of an expression. -/
def write : Expr → List Char
  | string _ v => '"' :: escape v.toList ++ ['"']
  | number _ v => (Number.integral v).toList
  | undefined _ => []
  | reference _ i => '#' :: '[' :: i.toList ++ [']']
  | name _ n => n.toList
  | field _ object (string _ n) =>
      parenthesized object.precedence?.isSome (write object) ++ '.' :: n.toList
  | field _ object f => parenthesized object.precedence?.isSome (write object) ++ '.' :: write f
  | call _ f args => f.toList ++ '(' :: writeArguments args ++ [')']
  | binary _ op lhs rhs =>
      parenthesized (lhs.looserThan op) (write lhs) ++ ' ' :: op.symbol :: ' ' ::
        parenthesized (rhs.notTighterThan op) (write rhs)
  | inline _ inner => '\x7b' :: write inner ++ ['\x7d']

def writeArguments : List (Argument Expr) → List Char
  | [] => []
  | [a] => writeArgument a
  | a :: b :: rest => writeArgument a ++ ',' :: ' ' :: writeArguments (b :: rest)

def writeArgument : Argument Expr → List Char
  | ⟨some n, undefined _, _⟩ => n.toList ++ [':']
  | ⟨some n, value, _⟩ => n.toList ++ ':' :: ' ' :: write value
  | ⟨none, value, _⟩ => write value

end

/-- The canonical text of an expression. -/
def pretty (e : Expr) : String := String.ofList e.write

end Expr

end FormulaOutline.Formula
