import FormulaOutline.Json.Basic
import FormulaOutline.Json.Reader
import FormulaOutline.Number.Binary

/-!
# Decoding JSON values

* A decoder takes a JSON value and gives what it stands for, if it stands for anything.
* `Fields` are the fields of a structure. They may be named, in any order and with others among
  them, or stand in a list in the order of their declaration.
-/

namespace FormulaOutline.Json

abbrev Decoder (α : Type) := Json → Option α

/-! ## Single values -/

def asString? : Decoder String
  | string s => some s
  | _ => none

def asBool? : Decoder Bool
  | bool b => some b
  | _ => none

/-- A number as a float. -/
def asFloat? : Decoder Float
  | float x => some x
  | natural n => some (Number.ofNat n)
  | negative n => some (-(Number.ofNat (n + 1)))
  | _ => none

/-- A natural number below a bound. -/
def asNat? (bound : Nat) : Decoder Nat
  | natural n => if n < bound then some n else none
  | _ => none

/-- A value, or nothing for null. -/
def nullable {α : Type} (d : Decoder α) : Decoder (Option α)
  | null => some none
  | j => (d j).map some

def asList? {α : Type} (d : Decoder α) : Decoder (List α)
  | array items => items.mapM d
  | _ => none

/-- Values by their names, in the order they are written. -/
def asEntries? {α : Type} (d : Decoder α) : Decoder (List (String × α))
  | object fields => fields.mapM fun (n, j) => (d j).map (n, ·)
  | _ => none

/-! ## Structures -/

inductive Fields
  | named (fields : List (String × Json))
  | listed (items : List Json)

/-- The fields of a structure that has `count` of them. -/
def fields? (count : Nat) : Decoder Fields
  | object fields => some (.named fields)
  | array items => if items.length ≤ count then some (.listed items) else none
  | _ => none

namespace Fields

/-- The field that is declared at a place under a name, if it is there. None may be there twice. -/
def find? (fields : Fields) (place : Nat) (name : String) : Option (Option Json) :=
  match fields with
  | named fs =>
      match fs.filter (·.1 == name) with
      | [] => some none
      | [(_, j)] => some (some j)
      | _ => none
  | listed items => some items[place]?

/-- A field that must be there. -/
def required {α : Type} (fields : Fields) (place : Nat) (name : String) (d : Decoder α) :
    Option α := do
  let found ← fields.find? place name
  let j ← found
  d j

/-- A field that may be left out if fields are named. -/
def optional {α : Type} (fields : Fields) (place : Nat) (name : String) (d : Decoder α) :
    Option (Option α) := do
  match ← fields.find? place name with
  | some j => nullable d j
  | none =>
      match fields with
      | named _ => some none
      | listed _ => none

/-- A field that has a value of its own when it is left out. -/
def withDefault {α : Type} (fields : Fields) (place : Nat) (name : String) (default : α)
    (d : Decoder α) : Option α := do
  match ← fields.find? place name with
  | some j => d j
  | none => some default

end Fields

/-! ## Alternatives -/

/-- The name of an alternative and what it holds. One that holds nothing may stand alone. -/
def alternative? : Json → Option (String × Option Json)
  | string name => some (name, none)
  | object [(name, content)] => some (name, some content)
  | _ => none

/-- Whether an alternative holds nothing. -/
def isEmptyContent : Option Json → Bool
  | none => true
  | some null => true
  | _ => false

/-- One of several names. -/
def oneOf? {α : Type} (all : List α) (name : α → String) : Decoder α := fun j => do
  let (n, content) ← alternative? j
  if isEmptyContent content then all.find? (name · == n) else none

end FormulaOutline.Json
