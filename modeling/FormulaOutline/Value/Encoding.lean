import FormulaOutline.Json.Decode
import FormulaOutline.Value.Basic

/-!
# Values as JSON

* `Value.toJson` and `Value.ofJson?` write and read values.
-/

namespace FormulaOutline

open Calendar Geo

namespace Calendar.Date

def toJson (d : Date) : Json := .string d.iso

def ofJson? : Json.Decoder Date := fun j => do
  let s ← j.asString?
  read? s.toList

end Calendar.Date

namespace Geo.Location

def toJson (l : Location) : Json := .object [("lat", .float l.lat), ("lng", .float l.lng)]

def ofJson? : Json.Decoder Location := fun j => do
  let fields ← j.fields? 2
  let lat ← fields.required 0 "lat" Json.asFloat?
  let lng ← fields.required 1 "lng" Json.asFloat?
  some ⟨lat, lng⟩

end Geo.Location

namespace ScopeId

def toJson (id : ScopeId) : Json :=
  .object [("index", .natural id.index), ("generation", .natural id.generation.toNat)]

def ofJson? : Json.Decoder ScopeId := fun j => do
  let fields ← j.fields? 2
  let index ← fields.required 0 "index" (Json.asNat? UInt32.size)
  let generation ← fields.required 1 "generation" (Json.asNat? UInt32.size)
  some ⟨index, .ofNat generation⟩

end ScopeId

namespace ValueType

def all : List ValueType := [.text, .number, .date, .location, .flightNumber]

def ofJson? : Json.Decoder ValueType := Json.oneOf? all name

end ValueType

namespace Value

mutual

def toJson : Value → Json
  | undefined => .string "Undefined"
  | null => .string "Null"
  | missingArguments => .string "MissingArguments"
  | bool b => .object [("Bool", .bool b)]
  | number x => .object [("Number", .float x)]
  | text s => .object [("Text", .string s)]
  | date d => .object [("Date", d.toJson)]
  | location l => .object [("Location", l.toJson)]
  | flightNumber s => .object [("FlightNumber", .string s)]
  | list items => .object [("List", .array (listToJson items))]
  | record fields => .object [("Record", .object (fieldsToJson fields))]
  | scope id => .object [("Scope", id.toJson)]

def listToJson : List Value → List Json
  | [] => []
  | v :: rest => toJson v :: listToJson rest

def fieldsToJson : List (String × Value) → List (String × Json)
  | [] => []
  | (n, v) :: rest => (n, toJson v) :: fieldsToJson rest

end

/-- Reads a value that is nested less than `depth` deep. -/
def ofJsonWithin? : (depth : Nat) → Json.Decoder Value
  | 0, _ => none
  | depth + 1, j => do
      let (name, content) ← j.alternative?
      match name, content with
      | "Undefined", content => if Json.isEmptyContent content then some undefined else none
      | "Null", content => if Json.isEmptyContent content then some null else none
      | "MissingArguments", content =>
          if Json.isEmptyContent content then some missingArguments else none
      | "Bool", some j => j.asBool?.map bool
      | "Number", some j => j.asFloat?.map number
      | "Text", some j => j.asString?.map text
      | "Date", some j => (Date.ofJson? j).map date
      | "Location", some j => (Location.ofJson? j).map location
      | "FlightNumber", some j => j.asString?.map flightNumber
      | "List", some j => (j.asList? (ofJsonWithin? depth)).map list
      | "Record", some j => (j.asEntries? (ofJsonWithin? depth)).map ofFields
      | "Scope", some j => (ScopeId.ofJson? j).map scope
      | _, _ => none

def ofJson? : Json.Decoder Value := ofJsonWithin? Json.depthLimit

end Value

end FormulaOutline
