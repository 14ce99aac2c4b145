import FormulaOutline.Number.Reading
import FormulaOutline.Text.Line

/-!
# Dates

Days of the Gregorian calendar, extended to all years.

* `Date.dayNumber` counts days, so that differences of dates are differences of integers.
* `Date.iso` writes a date, `Date.readIso?` and `Date.read?` read one.
-/

namespace FormulaOutline.Calendar

/-! ## Months and years -/

def isLeap (year : Int) : Bool :=
  year % 4 = 0 && (year % 100 ≠ 0 || year % 400 = 0)

def daysInMonth (year : Int) (month : Nat) : Nat :=
  if month = 2 then if isLeap year then 29 else 28
  else if month = 4 ∨ month = 6 ∨ month = 9 ∨ month = 11 then 30
  else 31

def firstYear : Int := -262143

def lastYear : Int := 262142

/-- Whether there is such a day. -/
def IsDay (year : Int) (month day : Nat) : Prop :=
  (firstYear ≤ year ∧ year ≤ lastYear) ∧ (1 ≤ month ∧ month ≤ 12) ∧
    1 ≤ day ∧ day ≤ daysInMonth year month

instance (year : Int) (month day : Nat) : Decidable (IsDay year month day) :=
  inferInstanceAs (Decidable (_ ∧ _))

structure Date where
  year : Int
  month : Nat
  day : Nat
  isDay : IsDay year month day
deriving DecidableEq

namespace Date

def ofParts? (year : Int) (month day : Nat) : Option Date :=
  if h : IsDay year month day then some ⟨year, month, day, h⟩ else none

/-- Days from the first of March of year zero to a day. Years start in March here, so that the leap
day is the last of its year. -/
def dayCount (year : Int) (month day : Nat) : Int :=
  let y := if month ≤ 2 then year - 1 else year
  let m : Int := if month ≤ 2 then month + 9 else month - 3
  365 * y + y / 4 - y / 100 + y / 400 + (153 * m + 2) / 5 + day - 1

def dayNumber (d : Date) : Int := dayCount d.year d.month d.day

/-- The place of a day in its year, from one. -/
def dayOfYear (d : Date) : Nat := (d.dayNumber - dayCount d.year 1 1 + 1).toNat

/-! ## Writing -/

/-- At least `width` digits. -/
def padded (width n : Nat) : List Char :=
  let digits := Nat.toDigits 10 n
  List.replicate (width - digits.length) '0' ++ digits

/-- Years of more or less than four digits have a sign. -/
def yearText (year : Int) : List Char :=
  if 0 ≤ year ∧ year < 10000 then padded 4 year.toNat
  else (if year < 0 then '-' else '+') :: padded 4 year.natAbs

/-- Year, month and day with hyphens between them. -/
def isoChars (d : Date) : List Char :=
  yearText d.year ++ '-' :: padded 2 d.month ++ '-' :: padded 2 d.day

def iso (d : Date) : String := String.ofList d.isoChars

/-! ## Reading -/

/-- A date of four, two and two digits. -/
def readIso? (s : List Char) : Option Date :=
  match s with
  | [y₁, y₂, y₃, y₄, '-', m₁, m₂, '-', d₁, d₂] =>
      if [y₁, y₂, y₃, y₄, m₁, m₂, d₁, d₂].all Char.isDigit then
        ofParts? (Number.ofDigits [y₁, y₂, y₃, y₄]) (Number.ofDigits [m₁, m₂])
          (Number.ofDigits [d₁, d₂])
      else none
  | _ => none

/-- At most `width` digits after blanks, as a number. -/
def readNumber? (width : Nat) (s : List Char) : Option (Nat × List Char) :=
  let s := Text.trimStart s
  let digits := (s.take width).takeWhile Char.isDigit
  if digits = [] then none else some (Number.ofDigits digits, s.drop digits.length)

/-- A year after blanks: a sign and any number of digits, or at most four digits. -/
def readYear? (s : List Char) : Option (Int × List Char) :=
  match Text.trimStart s with
  | '-' :: rest => signedYear (-1) rest
  | '+' :: rest => signedYear 1 rest
  | s => (readNumber? 4 s).map fun (n, rest) => (n, rest)
where
  /-- The digits after a sign. -/
  signedYear (sign : Int) (s : List Char) : Option (Int × List Char) :=
    let (digits, rest) := Number.spanDigits s
    if digits = [] then none else some (sign * Number.ofDigits digits, rest)

/-- A hyphen after blanks. -/
def afterHyphen? (s : List Char) : Option (List Char) :=
  match Text.trimStart s with
  | '-' :: rest => some rest
  | _ => none

/-- A date whose numbers need not have all their digits and may have blanks around them. -/
def read? (s : List Char) : Option Date := do
  let (year, s) ← readYear? s
  let s ← afterHyphen? s
  let (month, s) ← readNumber? 2 s
  let s ← afterHyphen? s
  let (day, s) ← readNumber? 2 s
  if Text.isBlankText s then ofParts? year month day else none

end Date

end FormulaOutline.Calendar
