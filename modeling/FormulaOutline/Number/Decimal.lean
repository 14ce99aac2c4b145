import FormulaOutline.Number.Binary

/-!
# Decimal digits of a float

The digits of the text of a float are chosen here, the layout of the text is elsewhere.

* `shortest` gives the fewest digits that read back as the same float, nearest to it among those.
* `significant` gives a fixed number of digits, `decimals` a fixed number of decimal places; both
  round a tie to the even digit.
-/

namespace FormulaOutline.Number

/-- A decimal number: `significand * 10 ^ exponent`. -/
structure Decimal where
  significand : Nat
  exponent : Int
deriving DecidableEq, Repr

/-- The decimal digits of a natural number, at least one. -/
def digitsOf (n : Nat) : List Char := Nat.toDigits 10 n

/-- Numerator and denominator of `num / den` divided by `10 ^ exponent`. -/
def scaleDecimal (num den : Nat) : Int → Nat × Nat
  | .ofNat e => (num, den * Nat.pow 10 e)
  | .negSucc e => (num * Nat.pow 10 (e + 1), den)

/-- The greatest `k` with `10 ^ k ≤ num / den`, for a positive fraction. -/
def decimalOrder (num den : Nat) : Int :=
  if den ≤ num then ((digitsOf (num / den)).length : Int) - 1
  else
    let length := (digitsOf (den / num)).length
    if den ≤ num * Nat.pow 10 (length - 1) then -((length : Int) - 1) else -(length : Int)

/-- Drops final zeros of the significand, `fuel` of them at most. -/
def Decimal.trim : Nat → Decimal → Decimal
  | 0, d => d
  | fuel + 1, d =>
      if d.significand ≠ 0 ∧ d.significand % 10 = 0 then
        trim fuel ⟨d.significand / 10, d.exponent + 1⟩
      else d

/-! ## Shortest digits -/

/-- Which of two equally near candidates is taken. -/
inductive Tie
  | up
  | even
deriving DecidableEq, Repr

/-- The numbers that round to a float lie between `low` and `high`, in units of `1 / unit`; the
float itself is `value`. The ends belong to it when `closed` holds. -/
structure Interval where
  low : Nat
  value : Nat
  high : Nat
  unit : Nat
  closed : Bool

/-- The rounding interval of `mantissa * 2 ^ exponent`. Below a power of two the floats lie twice
as dense as above it. -/
def Interval.ofFinite (mantissa : Nat) (exponent : Int) : Interval :=
  let low := if mantissa = Nat.pow 2 52 ∧ leastExponent < exponent then 4 * mantissa - 1
    else 4 * mantissa - 2
  let (size, unit) := scaleBinary 1 1 (2 - exponent)
  ⟨low * size, 4 * mantissa * size, (4 * mantissa + 2) * size, unit, mantissa % 2 = 0⟩

def Interval.holds (i : Interval) (num den : Nat) : Bool :=
  let n := num * i.unit
  if i.closed then decide (i.low * den ≤ n ∧ n ≤ i.high * den)
  else decide (i.low * den < n ∧ n < i.high * den)

/-- The multiple of `10 ^ exponent` to take in the interval, if one of the two that enclose its
value lies in it. -/
def Interval.onGrid (i : Interval) (tie : Tie) (exponent : Int) : Option Decimal :=
  let (n, d) := scaleDecimal i.value i.unit exponent
  let below := n / d
  let rest := n % d
  let (p, q) := scaleDecimal 1 1 (-exponent)
  let lower := i.holds (below * p) q
  let upper := i.holds ((below + 1) * p) q
  let takeUpper : Bool := match lower, upper with
    | false, _ => true
    | true, false => false
    | true, true =>
        decide (d < 2 * rest) || (decide (d = 2 * rest) && (tie = .up || below % 2 = 1))
  if lower || upper then some ⟨if takeUpper then below + 1 else below, exponent⟩ else none

/-- The fewest digits, at most seventeen, that read back as `mantissa * 2 ^ exponent`. -/
def shortest (tie : Tie) (mantissa : Nat) (exponent : Int) : Decimal :=
  if mantissa = 0 then ⟨0, 0⟩
  else
    let i := Interval.ofFinite mantissa exponent
    let order := decimalOrder i.value i.unit
    match (List.range 17).findSome? fun (more : Nat) => i.onGrid tie (order - more) with
    | some d => d.trim 1
    | none => ⟨i.value, 0⟩

/-! ## A fixed number of digits -/

/-- `count` significant digits of `num / den`, a positive fraction. -/
def significant (count num den : Nat) : Decimal :=
  let exponent := decimalOrder num den - (count - 1 : Nat)
  let (n, d) := scaleDecimal num den exponent
  let digits := nearestEven n d
  if digits = Nat.pow 10 count then ⟨Nat.pow 10 (count - 1), exponent + 1⟩ else ⟨digits, exponent⟩

/-- `num / den` in units of `10 ^ -places`. -/
def decimals (places num den : Nat) : Nat :=
  nearestEven (num * Nat.pow 10 places) den

end FormulaOutline.Number
