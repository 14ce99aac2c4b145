/-!
# JSON values

A value of a JSON text. The fields of an object keep their order and repetitions; a number is an
integer when it is written as one and fits into 64 bits, and a float otherwise.
-/

namespace FormulaOutline

inductive Json
  | null
  | bool (b : Bool)
  | natural (n : Nat)
  /-- The integer `-(n + 1)`. -/
  | negative (n : Nat)
  | float (x : Float)
  | string (s : String)
  | array (items : List Json)
  | object (fields : List (String × Json))
deriving Repr

namespace Json

instance : Inhabited Json := ⟨null⟩

def lastField? (name : String) (fields : List (String × Json)) : Option Json :=
  (fields.reverse.find? (·.1 == name)).map Prod.snd

/-- The field of an object by its name, the last one if there are several. -/
def field? (j : Json) (name : String) : Option Json :=
  match j with
  | object fields => lastField? name fields
  | _ => none

/-- An object of texts by their names. -/
def ofStrings (fields : List (String × String)) : Json :=
  object (fields.map fun (n, v) => (n, string v))

/-- A value or null. -/
def ofOption {α : Type} (encode : α → Json) : Option α → Json
  | some a => encode a
  | none => null

end Json

end FormulaOutline
