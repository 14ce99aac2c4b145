import FormulaOutline.Document.Outline
import FormulaOutline.Json.Basic

/-!
# Views of documents
-/

namespace FormulaOutline

def Node.view (n : Node) : Json :=
  .object
    [("id", .string n.id), ("value", .string n.value),
     ("children", .array (n.children.map .string))]

/-- A document as a whole, by its outline. -/
def Document.view (d : Document) : Json :=
  .object
    [("version", .natural d.version), ("len", .natural d.size), ("empty", .bool (d.size = 0)),
     ("root", .string d.root), ("outline", .string d.toOutline)]

end FormulaOutline
