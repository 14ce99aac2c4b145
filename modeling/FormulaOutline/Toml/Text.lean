import FormulaOutline.Json.Reader

/-!
# Blanks, keys and texts of TOML

* `afterLine?` is what follows a line of which nothing but blanks and a comment is left.
* `readPath` takes a key of names with points between them.
* `readText` takes a text of any of the four kinds: with or without escapes, on one line or several.
-/

namespace FormulaOutline.Toml

/-- Takes an `α` from the front of a text. -/
abbrev Reader (α : Type) := List Char → Option (α × List Char)

/-! ## Blanks and lines -/

def isBlank (c : Char) : Bool := c == ' ' || c == '\t'

/-- A character of a text or a comment: no control character but the tabulator. -/
def isPlain (c : Char) : Bool := c == '\t' || (0x20 ≤ c.toNat && c.toNat != 0x7F)

def skipBlanks (s : List Char) : List Char := s.dropWhile isBlank

/-- The text after a line end. -/
def afterBreak? : List Char → Option (List Char)
  | '\n' :: rest => some rest
  | '\r' :: '\n' :: rest => some rest
  | _ => none

def skipComment : List Char → List Char
  | '#' :: rest => rest.dropWhile isPlain
  | s => s

/-- The text after the blanks and the comment that may still stand in a line. -/
def afterLine? (s : List Char) : Option (List Char) :=
  match skipComment (skipBlanks s) with
  | [] => some []
  | rest => afterBreak? rest

/-- Skips blanks, comments and line ends; `fuel` bounds the number of lines. -/
def skipLines : Nat → List Char → List Char
  | 0, s => s
  | fuel + 1, s =>
      let rest := skipComment (skipBlanks s)
      match afterBreak? rest with
      | some next => skipLines fuel next
      | none => rest

def skipSpace (s : List Char) : List Char := skipLines (s.length + 1) s

/-- Skips blanks and line ends. -/
def skipBreaks : List Char → List Char
  | '\r' :: '\n' :: rest => skipBreaks rest
  | c :: rest => if isBlank c || c == '\n' then skipBreaks rest else c :: rest
  | [] => []

/-! ## Escapes -/

def ofCodePoint? (n : Nat) : Option Char := if n.isValidChar then some (Char.ofNat n) else none

/-- A code point of a given number of hexadecimal digits. -/
def readCodePoint (count : Nat) : Reader Char := fun s => do
  let n ← (s.take count).foldlM (fun n c => (Json.hexValue? c).map (16 * n + ·)) 0
  let c ← ofCodePoint? n
  if s.length < count then none else some (c, s.drop count)

/-- What stands after a backslash. -/
def readEscape : Reader Char
  | 'b' :: rest => some ('\x08', rest)
  | 't' :: rest => some ('\t', rest)
  | 'n' :: rest => some ('\n', rest)
  | 'f' :: rest => some ('\x0c', rest)
  | 'r' :: rest => some ('\r', rest)
  | '"' :: rest => some ('"', rest)
  | '\\' :: rest => some ('\\', rest)
  | 'u' :: rest => readCodePoint 4 rest
  | 'U' :: rest => readCodePoint 8 rest
  | _ => none

/-! ## Texts -/

/-- The rest of a text with escapes on one line; `fuel` bounds the number of its characters. -/
def readBasic : Nat → Reader (List Char)
  | 0, _ => none
  | _, [] => none
  | _, '"' :: rest => some ([], rest)
  | fuel + 1, '\\' :: rest => do
      let (c, rest) ← readEscape rest
      let (more, rest) ← readBasic fuel rest
      some (c :: more, rest)
  | fuel + 1, c :: rest =>
      if isPlain c then do
        let (more, rest) ← readBasic fuel rest
        some (c :: more, rest)
      else none

/-- The rest of a text without escapes on one line. -/
def readLiteral : Reader (List Char) := fun s =>
  match s.span fun c => isPlain c && c != '\'' with
  | (body, '\'' :: rest) => some (body, rest)
  | _ => none

/-- The rest of a text on several lines. Three quotation marks end it, of more than three the first
ones, two at most, belong to it. A backslash before a line end takes all blanks that follow. -/
def readLong (quote : Char) (escapes : Bool) : Nat → Reader (List Char)
  | 0, _ => none
  | fuel + 1, s =>
      let put (c : Char) (rest : List Char) : Option (List Char × List Char) :=
        (readLong quote escapes fuel rest).map fun (more, after) => (c :: more, after)
      let quotes := (s.take 5).takeWhile (· == quote)
      if 3 ≤ quotes.length then some (quotes.drop 3, s.drop quotes.length)
      else
        match afterBreak? s, s with
        | some rest, _ => put '\n' rest
        | none, [] => none
        | none, c :: rest =>
            if escapes ∧ c = '\\' then
              match afterBreak? (skipBlanks rest) with
              | some next => readLong quote escapes fuel (skipBreaks next)
              | none => do
                  let (e, after) ← readEscape rest
                  put e after
            else if isPlain c then put c rest
            else none

/-- A text on several lines does not begin with a line end. -/
def readLongBody (quote : Char) (escapes : Bool) : Reader (List Char) := fun s =>
  let body := (afterBreak? s).getD s
  readLong quote escapes (body.length + 1) body

def readChars : Reader (List Char)
  | '"' :: '"' :: '"' :: rest => readLongBody '"' true rest
  | '\'' :: '\'' :: '\'' :: rest => readLongBody '\'' false rest
  | '"' :: rest => readBasic (rest.length + 1) rest
  | '\'' :: rest => readLiteral rest
  | _ => none

def readText : Reader String := fun s => (readChars s).map fun (t, rest) => (String.ofList t, rest)

/-! ## Keys -/

def isNameChar (c : Char) : Bool := c.isAlphanum || c == '_' || c == '-'

/-- A name, or a text on one line in its place. -/
def readName : Reader String := fun s =>
  let chars : Option (List Char × List Char) :=
    match s with
    | '"' :: rest => readBasic (rest.length + 1) rest
    | '\'' :: rest => readLiteral rest
    | s =>
        match s.span isNameChar with
        | ([], _) => none
        | found => some found
  chars.map fun (t, rest) => (String.ofList t, rest)

/-- Names with points between them, `count` at most, and blanks around each. -/
def readPath : (count : Nat) → Reader (List String)
  | 0, _ => none
  | count + 1, s => do
      let (name, rest) ← readName (skipBlanks s)
      match skipBlanks rest with
      | '.' :: rest =>
          let (more, rest) ← readPath count rest
          some (name :: more, rest)
      | rest => some ([name], rest)

end FormulaOutline.Toml
