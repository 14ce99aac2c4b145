import FormulaOutline.Function.Slot

/-!
# Fields of values

`Get(object, field)` is what `object.field` stands for. A field of a node that a formula refers to
is the child with that key, or else a field of the node's value.
-/

namespace FormulaOutline.Functions

def get : Function where
  name := "Get"
  summary := "Read a property or field of a value"
  parameters := []
  call args _ next :=
    let field := (args.positionalAt 1).display
    match args.positionalAt 0 with
    | .scope target =>
        .look fun t =>
          if t.isLive target then
            match t.property? target field with
            | some child => .valueOfScope child fun v => next (.ok v)
            | none => .valueOfScope target fun v => next (.ok (v.field field))
          else next (.ok .undefined)
    | object => next (.ok (object.field field))
  suggestions _ := []
  autocomplete := none

end FormulaOutline.Functions
