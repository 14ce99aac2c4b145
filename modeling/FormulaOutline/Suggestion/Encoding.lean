import FormulaOutline.Pattern.Basic
import FormulaOutline.Suggestion.Basic
import FormulaOutline.Value.Encoding

/-!
# Suggestions and placements as JSON
-/

namespace FormulaOutline

def Suggestion.toJson (s : Suggestion) : Json :=
  .object
    [("function", .string s.function), ("expression", .string s.expression),
     ("rank", .ofOption .natural s.rank)]

def Suggestion.ofJson? : Json.Decoder Suggestion := fun j => do
  let fields ← j.fields? 3
  let function ← fields.required 0 "function" Json.asString?
  let expression ← fields.required 1 "expression" Json.asString?
  let rank ← fields.optional 2 "rank" (Json.asNat? Json.wordBound)
  some ⟨function, expression, rank⟩

def Relationship.ofJson? : Json.Decoder Relationship := Json.oneOf? all name

def Placement.ofJson? : Json.Decoder Placement := Json.oneOf? [above, below, child] name

end FormulaOutline
