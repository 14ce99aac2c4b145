import FormulaOutline.Json.Basic
import FormulaOutline.Number.Layout

/-!
# Writing JSON

* `compact` writes a value without blanks, `indented` one field or item a line.
-/

namespace FormulaOutline.Json

open Number

/-! ## Numbers -/

def floatStyle : FloatStyle := ⟨-5, 15, true, .even⟩

/-- A float that is not finite has no number. -/
def floatText (x : Float) : List Char :=
  if Number.isFinite x then (floating floatStyle x).toList else "null".toList

/-! ## Strings -/

/-- Control characters without an escape of their own are written by their number. -/
def controlText (c : Char) : List Char :=
  let digits := Nat.toDigits 16 c.toNat
  '\\' :: 'u' :: List.replicate (4 - digits.length) '0' ++ digits

def charText (c : Char) : List Char :=
  match c with
  | '"' => ['\\', '"']
  | '\\' => ['\\', '\\']
  | '\x08' => ['\\', 'b']
  | '\x0c' => ['\\', 'f']
  | '\n' => ['\\', 'n']
  | '\r' => ['\\', 'r']
  | '\t' => ['\\', 't']
  | c => if c.toNat < 0x20 then controlText c else [c]

def stringText (s : String) : List Char := '"' :: s.toList.flatMap charText ++ ['"']

/-! ## Compact -/

mutual

def compactText : Json → List Char
  | null => "null".toList
  | bool true => "true".toList
  | bool false => "false".toList
  | natural n => digitsOf n
  | negative n => '-' :: digitsOf (n + 1)
  | float x => floatText x
  | string s => stringText s
  | array items => '[' :: itemTexts items ++ [']']
  | object fields => '\x7b' :: fieldTexts fields ++ ['\x7d']

def itemTexts : List Json → List Char
  | [] => []
  | [v] => compactText v
  | v :: w :: rest => compactText v ++ ',' :: itemTexts (w :: rest)

def fieldTexts : List (String × Json) → List Char
  | [] => []
  | [(n, v)] => stringText n ++ ':' :: compactText v
  | (n, v) :: f :: rest => stringText n ++ ':' :: compactText v ++ ',' :: fieldTexts (f :: rest)

end

/-- A value without blanks. -/
def compact (j : Json) : String := String.ofList (compactText j)

/-! ## Indented -/

/-- A line end and the indentation of the line after it. -/
def newline (level : Nat) : List Char := '\n' :: List.replicate (2 * level) ' '

mutual

/-- A value whose lines are indented by `level` steps. -/
def indentedText (level : Nat) : Json → List Char
  | array (v :: items) =>
      '[' :: newline (level + 1) ++ indentedText (level + 1) v ++ indentedItems (level + 1) items ++
        newline level ++ [']']
  | object ((n, v) :: fields) =>
      '\x7b' :: newline (level + 1) ++ stringText n ++ ':' :: ' ' :: indentedText (level + 1) v ++
        indentedFields (level + 1) fields ++ newline level ++ ['\x7d']
  | j => compactText j

def indentedItems (level : Nat) : List Json → List Char
  | [] => []
  | v :: rest => ',' :: newline level ++ indentedText level v ++ indentedItems level rest

def indentedFields (level : Nat) : List (String × Json) → List Char
  | [] => []
  | (n, v) :: rest =>
      ',' :: newline level ++ stringText n ++ ':' :: ' ' :: indentedText level v ++
        indentedFields level rest

end

/-- A value with one field or item a line. -/
def indented (j : Json) : String := String.ofList (indentedText 0 j)

end FormulaOutline.Json
