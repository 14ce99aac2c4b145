import FormulaOutline.Json.Basic
import FormulaOutline.Number.Reading

/-!
# Numbers of JSON texts

Integers that fit into 64 bits are kept. Other numbers become floats in two steps: the digits, as
many as fit into 64 bits, are rounded to a float, which is then scaled by a power of ten. The last
bit may therefore differ from that of the nearest float.
-/

namespace FormulaOutline.Json

open Number

/-- One more than the greatest integer of 64 bits. -/
def wordBound : Nat := Nat.pow 2 64

/-- The greatest power of ten that is used in one step. -/
def stepExponent : Nat := 308

/-- Divides by powers of ten until the exponent is small, or nothing is left. -/
def scaleDown : Nat → Float → Nat → Float
  | 0, x, _ => x
  | fuel + 1, x, e =>
      if e ≤ stepExponent then x / Number.ofNat (Nat.pow 10 e)
      else if x == 0 then x
      else scaleDown fuel (x / Number.ofNat (Nat.pow 10 stepExponent)) (e - stepExponent)

/-- `significand * 10 ^ exponent` as a float, unless it is too large. -/
def scale? (significand : Nat) : Int → Option Float
  | .ofNat e =>
      let x := Number.ofNat significand
      if e ≤ stepExponent then
        let scaled := x * Number.ofNat (Nat.pow 10 e)
        if Number.isFinite scaled then some scaled else none
      else if significand = 0 then some x else none
  | .negSucc e => some (scaleDown (e + 2) (Number.ofNat significand) (e + 1))

def applySign (minus : Bool) (x : Float) : Float := if minus then -x else x

/-- The digits that fit into 64 bits, and how many are left over. Once a digit does not fit, none
of the following ones is used. -/
def significandOf : Nat → List Char → Nat × Nat
  | n, [] => (n, 0)
  | n, c :: rest =>
      let next := 10 * n + (c.toNat - '0'.toNat)
      if next < wordBound then significandOf next rest else (n, rest.length + 1)

/-- Exponents are not counted beyond this bound. -/
def exponentBound : Nat := Nat.pow 2 31

/-- The exponent of a number, with the text after it. -/
def readExponent (s : List Char) : Option ((Bool × Nat) × List Char) :=
  let (minus, rest) := splitSign s
  let (digits, after) := spanDigits rest
  if digits = [] then none else some ((minus, ofDigits digits), after)

/-- Scales a significand by an exponent that was written out. -/
def withExponent? (significand : Nat) (start : Int) (minus : Bool) (e : Nat) : Option Float :=
  if exponentBound ≤ e then
    if significand ≠ 0 ∧ minus = false then none else some 0
  else scale? significand (if minus then start - e else start + e)

/-- A number at the start of a text, after its sign. -/
def readUnsigned (minus : Bool) (s : List Char) : Option (Json × List Char) :=
  let (whole, afterWhole) := spanDigits s
  let leadingZero := whole.head? = some '0' ∧ 1 < whole.length
  if whole = [] ∨ leadingZero then none
  else
    let (n, dropped) := significandOf 0 whole
    let finish (x : Option Float) (rest : List Char) : Option (Json × List Char) :=
      x.map fun x => (float (applySign minus x), rest)
    let exponentOr (significand : Nat) (start : Int) (rest : List Char) :
        Option (Json × List Char) :=
      match rest with
      | c :: after =>
          if c = 'e' ∨ c = 'E' then do
            let ((down, e), after) ← readExponent after
            finish (withExponent? significand start down e) after
          else finish (scale? significand start) rest
      | [] => finish (scale? significand start) rest
    match afterWhole with
    | '.' :: rest =>
        let (fraction, after) := spanDigits rest
        let (m, ignored) := significandOf n fraction
        if fraction = [] then none
        else exponentOr m (dropped - (fraction.length - ignored : Nat)) after
    | c :: _ =>
        if c = 'e' ∨ c = 'E' ∨ 0 < dropped then exponentOr n dropped afterWhole
        else some (integer n, afterWhole)
    | [] => if 0 < dropped then exponentOr n dropped [] else some (integer n, [])
where
  /-- An integer with its sign; a negative one outside the signed 64 bits is a float. -/
  integer (n : Nat) : Json :=
    if minus then
      if n = 0 ∨ Nat.pow 2 63 < n then float (-(Number.ofNat n)) else negative (n - 1)
    else natural n

/-- A number at the start of a text. -/
def readNumber (s : List Char) : Option (Json × List Char) :=
  match s with
  | '-' :: rest => readUnsigned true rest
  | _ => readUnsigned false s

end FormulaOutline.Json
