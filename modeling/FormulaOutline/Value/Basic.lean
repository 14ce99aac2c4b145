import FormulaOutline.Calendar.Date
import FormulaOutline.Geo.Location
import FormulaOutline.Scope.Id

/-!
# Values

What formulas evaluate to.

* `Value.type?` is the type that suggestions and patterns go by.
* `Value.field` takes a field of a value.
-/

namespace FormulaOutline

open Calendar Geo

inductive ValueType
  | text
  | number
  | date
  | location
  | flightNumber
deriving DecidableEq, Repr

def ValueType.name : ValueType → String
  | .text => "text"
  | .number => "number"
  | .date => "date"
  | .location => "location"
  | .flightNumber => "flight_number"

inductive Value
  /-- There is no value: a name that nothing has, a call that fails, a scope without value. -/
  | undefined
  /-- The result of calling a function that does not exist. -/
  | null
  /-- The result of a call that lacks an argument. -/
  | missingArguments
  | bool (b : Bool)
  | number (x : Float)
  | text (s : String)
  | date (d : Date)
  | location (l : Location)
  | flightNumber (s : String)
  | list (items : List Value)
  /-- Fields by name, in the order of the names. -/
  | record (fields : List (String × Value))
  /-- The value of another scope. -/
  | scope (id : ScopeId)
deriving BEq

namespace Value

instance : Inhabited Value := ⟨undefined⟩

/-! ## Records -/

/-- Puts a field in its place, instead of one with the same name. -/
def insertField (name : String) (v : Value) : List (String × Value) → List (String × Value)
  | [] => [(name, v)]
  | (n, w) :: rest =>
      if name < n then (name, v) :: (n, w) :: rest
      else if name = n then (name, v) :: rest
      else (n, w) :: insertField name v rest

/-- A record; of several fields with one name the last one counts. -/
def ofFields (fields : List (String × Value)) : Value :=
  record (fields.foldl (fun sorted f => insertField f.1 f.2 sorted) [])

/-! ## Kinds of values -/

/-- Whether there is nothing to show. -/
def isNothing : Value → Bool
  | undefined => true
  | null => true
  | missingArguments => true
  | _ => false

def isUndefined : Value → Bool
  | undefined => true
  | _ => false

def isMissing : Value → Bool
  | missingArguments => true
  | _ => false

def isText : Value → Bool
  | text _ => true
  | _ => false

def type? : Value → Option ValueType
  | number _ => some .number
  | text _ => some .text
  | date _ => some .date
  | location _ => some .location
  | flightNumber _ => some .flightNumber
  | _ => none

/-! ## Reading values -/

/-- The number that a value is or that its text denotes. -/
def asNumber : Value → Option Float
  | number x => some x
  | text s => Number.readChars? (Text.trim s.toList)
  | _ => none

def asText : Value → Option String
  | text s => some s
  | flightNumber s => some s
  | _ => none

def asDate : Value → Option Date
  | date d => some d
  | _ => none

def asLocation : Value → Option Location
  | location l => some l
  | _ => none

def asScope : Value → Option ScopeId
  | scope id => some id
  | _ => none

/-- The float of an integer. -/
def ofInt (n : Int) : Value := number (Number.ofRatio (n < 0) n.natAbs 1)

/-- A field of a value, undefined if there is none. -/
def field (v : Value) (name : String) : Value :=
  match v with
  | record fields => (fields.lookup name).getD undefined
  | location l =>
      if name = "lat" then number l.lat
      else if name = "lng" then number l.lng
      else undefined
  | date d =>
      if name = "year" then ofInt d.year
      else if name = "month" then ofInt d.month
      else if name = "day" then ofInt d.day
      else undefined
  | list items => if name = "length" then ofInt items.length else undefined
  | _ => undefined

end Value

end FormulaOutline
