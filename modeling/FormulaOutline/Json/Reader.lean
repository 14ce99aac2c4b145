import FormulaOutline.Json.Number

/-!
# Reading JSON

* `parse` reads a text as one value. Arrays and objects may be nested less than `depthLimit` deep.
-/

namespace FormulaOutline.Json

/-- Arrays and objects may be nested less deep than this. -/
def depthLimit : Nat := 128

/-- Takes an `α` from the front of a text. -/
abbrev Reader (α : Type) := List Char → Option (α × List Char)

def isSpace (c : Char) : Bool := c == ' ' || c == '\n' || c == '\t' || c == '\r'

def skipSpace (s : List Char) : List Char := s.dropWhile isSpace

/-! ## Strings -/

def hexValue? (c : Char) : Option Nat :=
  if c.isDigit then some (c.toNat - '0'.toNat)
  else if 'a' ≤ c ∧ c ≤ 'f' then some (c.toNat - 'a'.toNat + 10)
  else if 'A' ≤ c ∧ c ≤ 'F' then some (c.toNat - 'A'.toNat + 10)
  else none

/-- A number of four hexadecimal digits. -/
def readHex : Reader Nat
  | a :: b :: c :: d :: rest => do
      let a ← hexValue? a
      let b ← hexValue? b
      let c ← hexValue? c
      let d ← hexValue? d
      some (((a * 16 + b) * 16 + c) * 16 + d, rest)
  | _ => none

/-- The character after `\u`; two halves of a pair make one character. -/
def readUnicode (s : List Char) : Option (Char × List Char) := do
  let (high, rest) ← readHex s
  if 0xDC00 ≤ high ∧ high < 0xE000 then none
  else if 0xD800 ≤ high ∧ high < 0xDC00 then
    match rest with
    | '\\' :: 'u' :: rest =>
        let (low, rest) ← readHex rest
        if 0xDC00 ≤ low ∧ low < 0xE000 then
          some (Char.ofNat (0x10000 + (high - 0xD800) * 0x400 + (low - 0xDC00)), rest)
        else none
    | _ => none
  else some (Char.ofNat high, rest)

/-- The character of a one-letter escape. -/
def escaped? : Char → Option Char
  | '"' => some '"'
  | '\\' => some '\\'
  | '/' => some '/'
  | 'b' => some '\x08'
  | 'f' => some '\x0c'
  | 'n' => some '\n'
  | 'r' => some '\r'
  | 't' => some '\t'
  | _ => none

/-- The characters of a string after its opening quotation mark; `fuel` bounds their number. -/
def readString : Nat → Reader (List Char)
  | 0, _ => none
  | _, [] => none
  | _, '"' :: rest => some ([], rest)
  | fuel + 1, '\\' :: 'u' :: rest => do
      let (c, rest) ← readUnicode rest
      let (more, rest) ← readString fuel rest
      some (c :: more, rest)
  | fuel + 1, '\\' :: e :: rest => do
      let c ← escaped? e
      let (more, rest) ← readString fuel rest
      some (c :: more, rest)
  | fuel + 1, c :: rest =>
      if c = '\\' ∨ c.toNat < 0x20 then none
      else do
        let (more, rest) ← readString fuel rest
        some (c :: more, rest)

/-- A string at the start of a text. -/
def readQuoted : Reader String
  | '"' :: rest =>
      (readString (rest.length + 1) rest).map fun (s, after) => (String.ofList s, after)
  | _ => none

/-! ## Values -/

/-- Items with commas between them up to a closing character; `fuel` bounds their number. -/
def readItems {α : Type} (close : Char) (item : Reader α) : Nat → Reader (List α)
  | 0, _ => none
  | fuel + 1, s => do
      let (first, rest) ← item (skipSpace s)
      match skipSpace rest with
      | ',' :: rest =>
          let (more, rest) ← readItems close item fuel rest
          some (first :: more, rest)
      | c :: rest => if c = close then some ([first], rest) else none
      | [] => none

/-- The items after an opening character, perhaps none. -/
def readGroup {α : Type} (close : Char) (item : Reader α) : Reader (List α) := fun s =>
  match skipSpace s with
  | [] => none
  | c :: rest => if c = close then some ([], rest) else readItems close item s.length s

/-- A name, a colon and a value. -/
def readField (value : Reader Json) : Reader (String × Json) := fun s => do
  let (name, rest) ← readQuoted s
  match skipSpace rest with
  | ':' :: rest =>
      let (v, rest) ← value (skipSpace rest)
      some ((name, v), rest)
  | _ => none

/-- The text after a word, if a text starts with it. -/
def afterWord? : List Char → List Char → Option (List Char)
  | [], s => some s
  | w :: word, c :: s => if w = c then afterWord? word s else none
  | _, [] => none

/-- A value whose arrays and objects are nested less than `depth` deep. -/
def readValue : (depth : Nat) → Reader Json
  | 0, _ => none
  | depth + 1, s =>
      match s with
      | [] => none
      | 'n' :: rest => (afterWord? "ull".toList rest).map (null, ·)
      | 't' :: rest => (afterWord? "rue".toList rest).map (bool true, ·)
      | 'f' :: rest => (afterWord? "alse".toList rest).map (bool false, ·)
      | '"' :: rest => (readQuoted ('"' :: rest)).map fun (v, after) => (string v, after)
      | '[' :: rest =>
          if depth = 0 then none
          else (readGroup ']' (readValue depth) rest).map fun (items, after) => (array items, after)
      | '\x7b' :: rest =>
          if depth = 0 then none
          else
            (readGroup '\x7d' (readField (readValue depth)) rest).map fun (fields, after) =>
              (object fields, after)
      | s => readNumber s

/-- Reads a text as one value with blanks around it. -/
def parse (s : List Char) : Option Json := do
  let (v, rest) ← readValue depthLimit (skipSpace s)
  if skipSpace rest = [] then some v else none

end FormulaOutline.Json
