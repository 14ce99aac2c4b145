import FormulaOutline.Number.Decimal

/-!
# Layout of numbers

How chosen digits are written.

* `plain` writes the shortest digits without an exponent.
* `integral` writes an integer below `10 ^ 15` by its digits alone, other numbers as `plain` does.
* `places` writes a fixed number of decimal places, `scientific` a fixed number of digits with an
  exponent.
* `floating` writes a float so that it is told from an integer: it has a point or an exponent.
-/

namespace FormulaOutline.Number

/-- Words for the floats without digits. -/
def special (x : Float) : String :=
  match denote x with
  | .infinite true => "-inf"
  | .infinite false => "inf"
  | _ => "NaN"

/-- The sign that stands before the digits. -/
def signed (negative : Bool) (digits : List Char) : List Char :=
  if negative then '-' :: digits else digits

/-- Digits with a point `exponent` places from their end, and zeros where there are no digits. -/
def positional (digits : List Char) : Int → List Char
  | .ofNat e => digits ++ List.replicate e '0'
  | .negSucc e =>
      let fraction := e + 1
      let padded := List.replicate (fraction + 1 - digits.length) '0' ++ digits
      padded.take (padded.length - fraction) ++ '.' :: padded.drop (padded.length - fraction)

/-- The shortest digits in positional notation. Zero keeps its sign. -/
def plain (x : Float) : String :=
  match denote x with
  | .finite negative 0 _ => String.ofList (signed negative ['0'])
  | .finite negative mantissa exponent =>
      let d := shortest .up mantissa exponent
      String.ofList (signed negative (positional (digitsOf d.significand) d.exponent))
  | _ => special x

/-- Integers of at least this magnitude are written by their shortest digits. -/
def integralBound : Nat := Nat.pow 10 15

/-- Integers below the bound are written by their digits; zero has no sign then. -/
def integral (x : Float) : String :=
  match whole? x with
  | some (negative, n) =>
      if n < integralBound then String.ofList (signed (negative && n != 0) (digitsOf n))
      else plain x
  | none => plain x

/-- A fixed number of decimal places, ties going to the even digit. Zero keeps its sign. -/
def places (count : Nat) (x : Float) : String :=
  match denote x with
  | .finite negative mantissa exponent =>
      let (n, d) := scaleBinary mantissa 1 (-exponent)
      String.ofList (signed negative (positional (digitsOf (decimals count n d)) (-count)))
  | _ => special x

/-- The exponent that belongs to a point after the first digit. -/
def Decimal.scientificExponent (d : Decimal) : Int :=
  d.exponent + (digitsOf d.significand).length - 1

/-- Digits with a point after the first one. -/
def pointed : List Char → List Char
  | first :: next :: rest => first :: '.' :: next :: rest
  | digits => digits

/-- A fixed number of significant digits, a point after the first, and the exponent. -/
def scientific (count : Nat) (x : Float) : String :=
  match denote x with
  | .finite negative 0 _ =>
      String.ofList (signed negative (pointed (List.replicate count '0') ++ ['e', '0']))
  | .finite negative mantissa exponent =>
      let (n, d) := scaleBinary mantissa 1 (-exponent)
      let s := significant count n d
      String.ofList (signed negative (pointed (digitsOf s.significand) ++ ['e'])) ++
        toString s.scientificExponent
  | _ => special x

/-! ## Texts told from integers -/

/-- How `floating` writes. Numbers whose first digit stands at one of the places from `least` to
`greatest` have no exponent. -/
structure FloatStyle where
  least : Int
  greatest : Int
  /-- Whether an exponent that is not negative has a plus sign. -/
  plusSign : Bool
  tie : Tie

/-- An exponent with its sign. -/
def FloatStyle.exponentText (style : FloatStyle) (e : Int) : List Char :=
  if e < 0 then 'e' :: '-' :: digitsOf e.natAbs
  else if style.plusSign then 'e' :: '+' :: digitsOf e.natAbs
  else 'e' :: digitsOf e.natAbs

/-- The shortest digits with a point or an exponent. -/
def floating (style : FloatStyle) (x : Float) : String :=
  match denote x with
  | .finite negative 0 _ => String.ofList (signed negative ['0', '.', '0'])
  | .finite negative mantissa exponent =>
      let d := shortest style.tie mantissa exponent
      let digits := digitsOf d.significand
      let e := d.scientificExponent
      if style.least ≤ e ∧ e ≤ style.greatest then
        let point : List Char := if d.exponent < 0 then [] else ['.', '0']
        String.ofList (signed negative (positional digits d.exponent ++ point))
      else String.ofList (signed negative (pointed digits ++ style.exponentText e))
  | _ => special x

end FormulaOutline.Number
