import FormulaOutline.Formula.Operator
import FormulaOutline.Value.Display

/-!
# Arithmetic on values
-/

namespace FormulaOutline.Value

open Formula

def applyNumbers (op : Operator) (a b : Float) : Float :=
  match op with
  | .add => a + b
  | .sub => a - b
  | .mul => a * b
  | .div => a / b

/-- An operator on values. Without a value on each side there is none. Texts that denote numbers
are numbers; other texts can only be joined by `+`. -/
def binary (op : Operator) (a b : Value) : Value :=
  if a.isNothing || b.isNothing then undefined
  else
    match a.asNumber, b.asNumber with
    | some x, some y => number (applyNumbers op x y)
    | _, _ =>
        if op = .add ∧ (a.isText || b.isText) then text (a.display ++ b.display)
        else number (0 / 0)

end FormulaOutline.Value
