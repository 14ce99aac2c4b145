import FormulaOutline.Number.Binary

/-!
# Reading numbers

* `ofDecimal` is the float nearest to a decimal number.
* `read?` reads a text: a sign, then either digits with at most one point and an exponent, or one
  of the words `inf`, `infinity` and `nan` in any case.
* `natural?` reads an unsigned integer below a bound.
-/

namespace FormulaOutline.Number

/-- The value of a string of decimal digits, most significant first. -/
def ofDigits (digits : List Char) : Nat :=
  digits.foldl (fun n c => 10 * n + (c.toNat - '0'.toNat)) 0

/-- The float nearest to `digits * 10 ^ exponent`. Exponents far outside the range of floats are
not multiplied out. -/
def ofDecimal (negative : Bool) (digits : Nat) (exponent : Int) : Float :=
  if digits = 0 then ofMagnitude negative 0
  else if 400 < exponent then ofMagnitude negative infinityBits
  else if exponent < -(400 + digits.log2 : Nat) then ofMagnitude negative 0
  else match exponent with
    | .ofNat e => ofRatio negative (digits * Nat.pow 10 e) 1
    | .negSucc e => ofRatio negative digits (Nat.pow 10 (e + 1))

/-- Splits off the leading decimal digits. -/
def spanDigits (s : List Char) : List Char × List Char :=
  s.span Char.isDigit

/-- Splits off a sign; the flag is set for a minus. -/
def splitSign : List Char → Bool × List Char
  | '-' :: rest => (true, rest)
  | '+' :: rest => (false, rest)
  | s => (false, s)

/-- The exponent part of a number; no text is exponent zero. -/
def readExponent? : List Char → Option Int
  | [] => some 0
  | c :: rest =>
      if c = 'e' ∨ c = 'E' then
        let (negative, digits) := splitSign rest
        if digits ≠ [] ∧ digits.all Char.isDigit then
          some (if negative then -(ofDigits digits : Int) else ofDigits digits)
        else none
      else none

/-- Digits with at most one point among, before or after them, then an exponent. -/
def readUnsigned? (negative : Bool) (s : List Char) : Option Float :=
  let (whole, afterWhole) := spanDigits s
  let (fraction, rest) := match afterWhole with
    | '.' :: r => spanDigits r
    | r => ([], r)
  if whole = [] ∧ fraction = [] then none
  else (readExponent? rest).map fun e =>
    ofDecimal negative (ofDigits (whole ++ fraction)) (e - fraction.length)

/-- The words for the floats without digits. -/
def readWord? (negative : Bool) (s : List Char) : Option Float :=
  let word := s.map Char.toLower
  if word = "inf".toList ∨ word = "infinity".toList then some (ofMagnitude negative infinityBits)
  else if word = "nan".toList then some (Float.ofBits 0x7FF8000000000000)
  else none

def readChars? (s : List Char) : Option Float :=
  let (negative, rest) := splitSign s
  match readUnsigned? negative rest with
  | some x => some x
  | none => readWord? negative rest

/-- The number that a text denotes, blanks not being part of it. -/
def read? (s : String) : Option Float := readChars? s.toList

/-- An unsigned integer below `bound`, with an optional plus sign. -/
def natural? (bound : Nat) (s : List Char) : Option Nat :=
  let digits := match s with
    | '+' :: rest => rest
    | _ => s
  if digits ≠ [] ∧ digits.all Char.isDigit ∧ ofDigits digits < bound then some (ofDigits digits)
  else none

end FormulaOutline.Number
