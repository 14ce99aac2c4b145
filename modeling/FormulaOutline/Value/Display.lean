import FormulaOutline.Value.Basic
import FormulaOutline.Text.Quoted

/-!
# Texts of values

* `Value.display` is what a reader of the outline sees.
* `Value.describe` also tells values apart that look alike.
-/

namespace FormulaOutline

open Calendar Geo

/-- Numbers are shown with at most three decimal places. -/
def displayNumber (x : Float) : String :=
  match Number.whole? x with
  | some (negative, n) =>
      if n < Number.integralBound then
        String.ofList (Number.signed (negative && n != 0) (Number.digitsOf n))
      else Number.plain (Number.roundHalfAway (x * 1000) / 1000)
  | none =>
      if Number.isFinite x then Number.plain (Number.roundHalfAway (x * 1000) / 1000)
      else Number.plain x

namespace Value

mutual

/-- The text of a value; what is no value has none. -/
def display : Value → String
  | undefined => ""
  | null => ""
  | missingArguments => ""
  | scope _ => ""
  | bool b => if b then "true" else "false"
  | number x => displayNumber x
  | text s => s
  | flightNumber s => s
  | date d => d.iso
  | location l => l.text
  | list items => ", ".intercalate (displayItems items)
  | record fields => ", ".intercalate (displayFields fields)

def displayItems : List Value → List String
  | [] => []
  | v :: rest => display v :: displayItems rest

def displayFields : List (String × Value) → List String
  | [] => []
  | (n, v) :: rest => (n ++ ": " ++ display v) :: displayFields rest

end

/-! ## Descriptions -/

/-- Floats in descriptions. -/
def describedFloat : Number.FloatStyle := ⟨-4, 15, false, .up⟩

/-- A name and what it stands before, in parentheses. -/
def labelled (label content : String) : String := label ++ "(" ++ content ++ ")"

/-- Entries between braces; a text alone cannot hold a brace. -/
def braced (content : String) : String := "\x7b" ++ content ++ "\x7d"

def describeFloat (x : Float) : String := Number.floating describedFloat x

def describeScope (id : ScopeId) : String :=
  "ScopeId " ++ braced
    (" index: " ++ toString id.index ++ ", generation: " ++ toString id.generation.toNat ++ " ")

mutual

/-- A text that shows the kind of a value and everything in it. -/
def describe : Value → String
  | undefined => "Undefined"
  | null => "Null"
  | missingArguments => "MissingArguments"
  | bool b => labelled "Bool" (if b then "true" else "false")
  | number x => labelled "Number" (describeFloat x)
  | text s => labelled "Text" (Text.quoted s)
  | flightNumber s => labelled "FlightNumber" (Text.quoted s)
  | date d => labelled "Date" d.iso
  | location l =>
      labelled "Location" ("LatLng " ++
        braced (" lat: " ++ describeFloat l.lat ++ ", lng: " ++ describeFloat l.lng ++ " "))
  | list items => labelled "List" ("[" ++ ", ".intercalate (describeItems items) ++ "]")
  | record fields => labelled "Record" (braced (", ".intercalate (describeFields fields)))
  | scope id => labelled "Scope" (describeScope id)

def describeItems : List Value → List String
  | [] => []
  | v :: rest => describe v :: describeItems rest

def describeFields : List (String × Value) → List String
  | [] => []
  | (n, v) :: rest => (Text.quoted n ++ ": " ++ describe v) :: describeFields rest

end

end Value

end FormulaOutline
