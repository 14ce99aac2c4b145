import FormulaOutline.Function.Slot

/-!
# Sums

`Sum(a, b, …)` adds its arguments, `Sum()` the values of the children of its scope.
-/

namespace FormulaOutline.Functions

mutual

/-- What a value adds to a sum; a value that is no number adds nothing. -/
def summand : Value → Float
  | .list items => sumFrom (-0.0) items
  | .number x => x
  | v => v.asNumber.getD 0

/-- Adds the summands of values, from left to right. -/
def sumFrom (total : Float) : List Value → Float
  | [] => total
  | v :: rest => sumFrom (total + summand v) rest

end

/-- The sum of values. The sum of nothing is negative zero, the neutral element of addition. -/
def sumOf (values : List Value) : Float := sumFrom (-0.0) values

/-- A parameter that `Sum()` would add up: a number right below the scope. -/
def isNumberBelow (p : Parameter) : Bool :=
  p.relationship = .self && p.distance = 1 && p.type = .number

def sum : Function where
  name := "Sum"
  summary := "Add numbers, or the numbers below this bullet"
  parameters := []
  call args scope next :=
    let finish (values : List Value) : Process := next (.ok (.number (sumOf values)))
    if args.isEmpty then
      .look fun t => .gather ((t.children scope).map fun child => .typedOfScope child .done) finish
    else
      .gather ((args.positional ++ args.named.map Prod.snd).map fun v => .typed v .done) finish
  suggestions parameters :=
    if 2 ≤ parameters.countP isNumberBelow then [.call "Sum" [] (some 1)] else []
  autocomplete := some (.template "Sum" [])

end FormulaOutline.Functions
