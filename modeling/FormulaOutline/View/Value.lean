import FormulaOutline.Json.Basic
import FormulaOutline.Number.Layout
import FormulaOutline.Value.Display

/-!
# Views of values

A view is a JSON value in which a tool sees something of the library. Views are for looking at: what
is stored or sent has an encoding of its own.

* `Value.view` is the view of a value. Floats are texts, so that all of them can be seen.
-/

namespace FormulaOutline

open Calendar Geo

/-! ## Numbers -/

/-- Integers below the bound have their digits, other floats twelve significant digits. -/
def Number.view (x : Float) : String :=
  match whole? x with
  | some (negative, n) =>
      if n < integralBound then String.ofList (signed negative (digitsOf n)) else scientific 12 x
  | none => if isFinite x then scientific 12 x else special x

namespace Json

def ofNumber (x : Float) : Json := string (Number.view x)

/-- An integer. -/
def ofInt (n : Int) : Json :=
  match n with
  | .ofNat n => natural n
  | .negSucc n => negative n

def texts (l : List String) : Json := array (l.map string)

def list {α : Type} (view : α → Json) (l : List α) : Json := array (l.map view)

end Json

def ScopeId.view (id : ScopeId) : Json := .string id.text

def ValueType.view (t : ValueType) : Json := .string t.name

/-! ## Values -/

namespace Value

/-- A view that begins with the kind of the value. -/
def tagged (kind : String) (fields : List (String × Json)) : Json :=
  .object (("t", .string kind) :: fields)

mutual

def view : Value → Json
  | undefined => tagged "undefined" []
  | null => tagged "null" []
  | missingArguments => tagged "missing" []
  | bool b => tagged "bool" [("v", .bool b)]
  | number x => tagged "number" [("v", .ofNumber x)]
  | text s => tagged "text" [("v", .string s)]
  | flightNumber s => tagged "flight" [("v", .string s)]
  | date d => tagged "date" [("v", .string d.iso)]
  | location l => tagged "location" [("lat", .ofNumber l.lat), ("lng", .ofNumber l.lng)]
  | list items => tagged "list" [("v", .array (viewItems items))]
  | record fields => tagged "record" [("v", .array (viewFields fields))]
  | scope id => tagged "scope" [("v", id.view)]

def viewItems : List Value → List Json
  | [] => []
  | v :: rest => view v :: viewItems rest

def viewFields : List (String × Value) → List Json
  | [] => []
  | (n, v) :: rest => .array [.string n, view v] :: viewFields rest

end

/-- A value with its text. -/
def shown (v : Value) : List (String × Json) := [("value", v.view), ("display", .string v.display)]

/-- Everything that can be read off a value, and the given fields of it if any are asked for. -/
def details (v : Value) (fields : Option (List String)) : Json :=
  .object (v.shown ++
    [("type", .ofOption ValueType.view v.type?), ("nothing", .bool v.isNothing),
     ("undefined", .bool v.isUndefined), ("missing", .bool v.isMissing),
     ("as_number", .ofOption .ofNumber v.asNumber), ("as_text", .ofOption .string v.asText),
     ("as_date", .ofOption (fun d : Date => .string d.iso) v.asDate),
     ("as_location", .ofOption (fun l : Location => .string l.text) v.asLocation),
     ("as_scope", .ofOption ScopeId.view v.asScope)] ++
    (fields.toList.map fun names => ("fields", .list (fun n => (v.field n).view) names)))

end Value

end FormulaOutline
