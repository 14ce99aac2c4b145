import FormulaOutline.Calendar.Date
import FormulaOutline.Toml.Text

/-!
# Numbers and moments of TOML

* `readNumber` takes an integer of 64 bits or a float. Digits may be grouped by underscores.
* `readMoment` takes a date, a time of day or both, and checks them against calendar and clock.
-/

namespace FormulaOutline.Toml

/-! ## Digits -/

/-- Digits, where single underscores may stand between two of them. -/
def readDigits (isDigit : Char → Bool) : Reader (List Char) := fun s =>
  let (run, rest) := s.span fun c => isDigit c || c == '_'
  if (run.splitOn '_').all (! ·.isEmpty) then some (run.filter (· != '_'), rest) else none

/-- A given number of decimal digits as a number between two bounds. -/
def readFixed (count low high : Nat) : Reader Nat := fun s =>
  let digits := s.take count
  let n := Number.ofDigits digits
  if digits.length = count ∧ digits.all Char.isDigit ∧ low ≤ n ∧ n ≤ high then
    some (n, s.drop count)
  else none

/-- The text after a character. -/
def after? (c : Char) : List Char → Option (List Char)
  | d :: rest => if c = d then some rest else none
  | [] => none

/-! ## Numbers -/

/-- One more than the greatest integer. -/
def integerBound : Nat := Nat.pow 2 63

/-- An integer of 64 bits. -/
def integer? (minus : Bool) (n : Nat) : Option Json :=
  if minus ∧ 0 < n then if n ≤ integerBound then some (.negative (n - 1)) else none
  else if n < integerBound then some (.natural n)
  else none

/-- The digits of an integer to a base that is marked by a letter. -/
def readBased (base : Nat) : Reader Json := fun s => do
  let (digits, rest) ← readDigits (fun c => (Json.hexValue? c).any (· < base)) s
  let j ← integer? false (digits.foldl (fun n c => base * n + (Json.hexValue? c).getD 0) 0)
  some (j, rest)

/-- The digits after a point. -/
def readFraction : Reader (Option (List Char))
  | '.' :: rest => (readDigits Char.isDigit rest).map fun (digits, rest) => (some digits, rest)
  | s => some (none, s)

/-- The exponent after its letter. -/
def readExponent : Reader (Option Int)
  | c :: rest =>
      if c = 'e' ∨ c = 'E' then do
        let (minus, rest) := Number.splitSign rest
        let (digits, rest) ← readDigits Char.isDigit rest
        let e : Int := Number.ofDigits digits
        some (some (if minus then -e else e), rest)
      else some (none, c :: rest)
  | [] => some (none, [])

/-- A float that is not too large. -/
def float? (minus : Bool) (digits : List Char) (exponent : Int) : Option Json :=
  let x := Number.ofDecimal minus (Number.ofDigits digits) exponent
  if Number.isFinite x || minus then some (.float x) else none

/-- A decimal number after its sign. Its first digit is zero only if it stands alone. -/
def readDecimal (minus : Bool) : Reader Json := fun s => do
  let (whole, rest) ← readDigits Char.isDigit s
  if whole.head? = some '0' ∧ 1 < whole.length then none
  else
    let (fraction, rest) ← readFraction rest
    let (exponent, rest) ← readExponent rest
    let j ←
      if fraction.isNone ∧ exponent.isNone then integer? minus (Number.ofDigits whole)
      else
        let digits := fraction.getD []
        float? minus (whole ++ digits) (exponent.getD 0 - digits.length)
    some (j, rest)

/-- The floats that have no digits. -/
def readWord (minus : Bool) : Reader Json
  | 'i' :: 'n' :: 'f' :: rest =>
      some (.float (Number.ofMagnitude minus Number.infinityBits), rest)
  | 'n' :: 'a' :: 'n' :: rest => some (.float (0 / 0), rest)
  | _ => none

def readSigned (minus : Bool) (s : List Char) : Option (Json × List Char) :=
  (readWord minus s).or (readDecimal minus s)

def readNumber : Reader Json
  | '0' :: 'x' :: rest => readBased 16 rest
  | '0' :: 'o' :: rest => readBased 8 rest
  | '0' :: 'b' :: rest => readBased 2 rest
  | '-' :: rest => readSigned true rest
  | '+' :: rest => readSigned false rest
  | s => readSigned false s

/-! ## Moments -/

/-- The text after a date of the calendar. -/
def afterDate? (s : List Char) : Option (List Char) := do
  let (year, rest) ← readFixed 4 0 9999 s
  let rest ← after? '-' rest
  let (month, rest) ← readFixed 2 1 12 rest
  let rest ← after? '-' rest
  let (_, rest) ← readFixed 2 1 (Calendar.daysInMonth year month) rest
  some rest

/-- The text after the decimals of a second, if there are any. -/
def afterDecimals? : List Char → Option (List Char)
  | '.' :: rest =>
      match rest.span Char.isDigit with
      | ([], _) => none
      | (_, after) => some after
  | s => some s

/-- The text after a time of day. A minute may have a leap second. -/
def afterTime? (s : List Char) : Option (List Char) := do
  let (_, rest) ← readFixed 2 0 23 s
  let rest ← after? ':' rest
  let (_, rest) ← readFixed 2 0 59 rest
  let rest ← after? ':' rest
  let (_, rest) ← readFixed 2 0 60 rest
  afterDecimals? rest

/-- The text after a distance from universal time, if there is one. -/
def afterOffset? : List Char → Option (List Char)
  | c :: rest =>
      if c = 'Z' ∨ c = 'z' then some rest
      else if c = '+' ∨ c = '-' then do
        let (_, rest) ← readFixed 2 0 23 rest
        let rest ← after? ':' rest
        let (_, rest) ← readFixed 2 0 59 rest
        some rest
      else some (c :: rest)
  | [] => some []

/-- The text after the time of day that may follow a date. -/
def afterDayTime? (s : List Char) : Option (List Char) :=
  match s with
  | c :: rest =>
      if c = 'T' ∨ c = 't' ∨ c = ' ' then
        match afterTime? rest with
        | some after => afterOffset? after
        | none => some s
      else some s
  | [] => some []

/-- A moment is an object with its text. -/
def readMoment : Reader Json := fun s => do
  let rest ←
    match afterDate? s with
    | some rest => afterDayTime? rest
    | none => afterTime? s
  some (.ofStrings [("moment", String.ofList (s.take (s.length - rest.length)))], rest)

end FormulaOutline.Toml
