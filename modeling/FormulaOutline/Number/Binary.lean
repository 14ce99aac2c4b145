/-!
# Binary floating-point numbers, exactly

A float is read as a sign, a natural mantissa and a power of two. Every question about its decimal
text then becomes a question about natural numbers.

* `denote` reads a float, `ofRatio` rounds a fraction of natural numbers to the nearest float.
* `whole?` is the integer a float denotes, if it denotes one.
* `roundHalfAway` rounds to an integer, a half going away from zero.
-/

namespace FormulaOutline.Number

/-! ## Reading the bits -/

/-- What a float denotes. A finite one is `mantissa * 2 ^ exponent` with a sign. -/
inductive Denotation
  | finite (negative : Bool) (mantissa : Nat) (exponent : Int)
  | infinite (negative : Bool)
  | notANumber
deriving DecidableEq, Repr

/-- The least exponent of a finite float. -/
def leastExponent : Int := -1074

/-- The bits of positive infinity, one more than those of the largest finite float. -/
def infinityBits : Nat := 2047 * Nat.pow 2 52

def denote (x : Float) : Denotation :=
  let bits := x.toBits.toNat
  let negative := decide (Nat.pow 2 63 ≤ bits)
  let field : Nat := bits / Nat.pow 2 52 % 2048
  let fraction : Nat := bits % Nat.pow 2 52
  if field = 2047 then
    if fraction = 0 then .infinite negative else .notANumber
  else if field = 0 then .finite negative fraction leastExponent
  else .finite negative (fraction + Nat.pow 2 52) ((field : Int) - 1075)

def isFinite (x : Float) : Bool :=
  match denote x with
  | .finite .. => true
  | _ => false

/-! ## Rounding to a float -/

/-- The integer nearest to `num / den`, a tie going to the even one. -/
def nearestEven (num den : Nat) : Nat :=
  let quotient := num / den
  let rest := num % den
  if 2 * rest < den then quotient
  else if den < 2 * rest then quotient + 1
  else quotient + quotient % 2

/-- Numerator and denominator of `num / den` divided by `2 ^ exponent`. -/
def scaleBinary (num den : Nat) : Int → Nat × Nat
  | .ofNat e => (num, den * Nat.pow 2 e)
  | .negSucc e => (num * Nat.pow 2 (e + 1), den)

/-- The float with the given sign and magnitude bits, infinity when there are too many. -/
def ofMagnitude (negative : Bool) (bits : Nat) : Float :=
  let magnitude := min bits infinityBits
  Float.ofBits (UInt64.ofNat (if negative then magnitude + Nat.pow 2 63 else magnitude))

/-- Exponent at which the floats near `num / den` are spaced. -/
def spacing (num den : Nat) : Int :=
  let guess := max ((num.log2 : Int) - den.log2 - 53) leastExponent
  let (n, d) := scaleBinary num den guess
  if n / d < Nat.pow 2 53 then guess else guess + 1

/-- The float nearest to `num / den`, a tie going to the even mantissa. -/
def ofRatio (negative : Bool) (num den : Nat) : Float :=
  if num = 0 then ofMagnitude negative 0 else
  let exponent := spacing num den
  let (n, d) := scaleBinary num den exponent
  ofMagnitude negative ((exponent - leastExponent).toNat * Nat.pow 2 52 + nearestEven n d)

/-- The float nearest to a natural number. -/
def ofNat (n : Nat) : Float := ofRatio false n 1

/-! ## Integers -/

/-- Sign and magnitude of the integer that a float denotes. -/
def whole? (x : Float) : Option (Bool × Nat) :=
  match denote x with
  | .finite negative mantissa (.ofNat e) => some (negative, mantissa * Nat.pow 2 e)
  | .finite negative mantissa (.negSucc e) =>
      if mantissa % Nat.pow 2 (e + 1) = 0 then some (negative, mantissa / Nat.pow 2 (e + 1))
      else none
  | _ => none

/-- The nearest integer as a float, a half going away from zero. -/
def roundHalfAway (x : Float) : Float :=
  match denote x with
  | .finite negative mantissa (.negSucc e) =>
      ofRatio negative ((2 * mantissa + Nat.pow 2 (e + 1)) / Nat.pow 2 (e + 2)) 1
  | _ => x

/-- The integer part of a float, held between zero and `most`. -/
def truncateTo (most : Nat) (x : Float) : Nat :=
  match denote x with
  | .finite true .. => 0
  | .finite false mantissa (.ofNat e) => min most (mantissa * Nat.pow 2 e)
  | .finite false mantissa (.negSucc e) => min most (mantissa / Nat.pow 2 (e + 1))
  | .infinite false => most
  | .infinite true => 0
  | .notANumber => 0

end FormulaOutline.Number
