import FormulaOutline.Value.Basic
import FormulaOutline.Text.Property.Numeric

/-!
# Recognizing values

A text may denote a date, a location, a flight number or a number.

* `recognize` is the value that a literal text stands for.
-/

namespace FormulaOutline

open Calendar Geo Text

/-- A date of four, two and two digits; blanks may stand around it. -/
def dateOf? (s : List Char) : Option Date := Date.readIso? (trim s)

/-! ## Locations -/

/-- A decimal number without exponent at the start of a text. -/
def readCoordinate? (s : List Char) : Option (Float × List Char) :=
  let (negative, rest) : Bool × List Char := match s with
    | '-' :: rest => (true, rest)
    | _ => (false, s)
  let (whole, after) := Number.spanDigits rest
  if whole = [] then none
  else
    match after with
    | '.' :: tail =>
        let (fraction, after) := Number.spanDigits tail
        if fraction = [] then none
        else some (Number.ofDecimal negative (Number.ofDigits (whole ++ fraction))
          (-fraction.length), after)
    | _ => some (Number.ofDecimal negative (Number.ofDigits whole) 0, after)

/-- Latitude and longitude with a comma between them; blanks may stand around them. -/
def locationOf? (s : List Char) : Option Location := do
  let (lat, rest) ← readCoordinate? (trim s)
  match trimStart rest with
  | ',' :: rest =>
      let (lng, rest) ← readCoordinate? (trimStart rest)
      if rest = [] ∧ (Location.mk lat lng).isOnGlobe then some ⟨lat, lng⟩ else none
  | _ => none

/-! ## Flight numbers -/

def isDesignatorChar (c : Char) : Bool := c.isUpper || c.isDigit

/-- One to four digits, and perhaps a capital letter. -/
def isFlightSuffix (s : List Char) : Bool :=
  let digits := s.takeWhile isDecimalDigit
  let rest := s.dropWhile isDecimalDigit
  0 < digits.length && digits.length ≤ 4 &&
    match rest with
    | [] => true
    | [c] => c.isUpper
    | _ => false

/-- The text after one blank, if it starts with one. -/
def dropBlank : List Char → List Char
  | c :: rest => if isBlank c then rest else c :: rest
  | [] => []

/-- An airline and a number, perhaps with a blank between them, without that blank. -/
def flightOf? (s : List Char) : Option String :=
  match trim s with
  | a :: b :: rest =>
      if isDesignatorChar a && isDesignatorChar b && (a.isUpper || b.isUpper) &&
          isFlightSuffix (dropBlank rest) then
        some (String.ofList (a :: b :: dropBlank rest))
      else none
  | _ => none

/-! ## All kinds -/

/-- The finite number that a text denotes. -/
def finiteOf? (s : List Char) : Option Float :=
  (Number.readChars? s).filter Number.isFinite

/-- The value that a literal text stands for; it stands for itself if it denotes nothing else. -/
def recognize (s : String) : Value :=
  let trimmed := trim s.toList
  match dateOf? trimmed with
  | some d => .date d
  | none =>
      match locationOf? trimmed with
      | some l => .location l
      | none =>
          match flightOf? trimmed with
          | some f => .flightNumber f
          | none =>
              match finiteOf? trimmed with
              | some x => .number x
              | none => .text s

end FormulaOutline
