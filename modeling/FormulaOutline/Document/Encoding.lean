import FormulaOutline.Document.Basic
import FormulaOutline.Json.Decode

/-!
# Nodes as JSON
-/

namespace FormulaOutline

def Node.ofJson? : Json.Decoder Node := fun j => do
  let fields ← j.fields? 3
  let id ← fields.required 0 "id" Json.asString?
  let value ← fields.required 1 "value" Json.asString?
  let children ← fields.required 2 "children" (Json.asList? Json.asString?)
  some ⟨id, value, children⟩

end FormulaOutline
