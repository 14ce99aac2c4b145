import FormulaOutline.Text.Property.Ranges

/-!
# Pieces of a text

Texts are lists of characters here.

* `trim`, `words` and `lines` cut a text at its blanks and line ends.
* `byteLength`, `takeBytes` and `dropBytes` count in bytes of UTF-8.
-/

namespace FormulaOutline.Text

/-! ## Blanks -/

def trimStart (s : List Char) : List Char := s.dropWhile isBlank

def trimEnd (s : List Char) : List Char := (s.reverse.dropWhile isBlank).reverse

def trim (s : List Char) : List Char := trimEnd (trimStart s)

/-- Whether a text has no character that is not blank. -/
def isBlankText (s : List Char) : Bool := s.all isBlank

/-- The longest runs of characters that are not blank. -/
def words (s : List Char) : List (List Char) :=
  (s.splitOnP isBlank).filter (!·.isEmpty)

/-- The words of a text with one space between them. -/
def joinWords (s : List Char) : List Char :=
  [' '].intercalate (words s)

/-! ## Lines -/

/-- A line without the carriage return that belongs to its line end. -/
def stripReturn (line : List Char) : List Char :=
  if line.getLast? = some '\r' then line.dropLast else line

/-- The lines of a text; a line end is a newline, or a carriage return and a newline. No line
follows the last line end. -/
def lines (s : List Char) : List (List Char) :=
  let pieces := s.splitOn '\n'
  pieces.dropLast.map stripReturn ++ (pieces.getLast?.filter (!·.isEmpty)).toList

/-! ## Bytes -/

/-- The number of bytes of a text. -/
def byteLength : List Char → Nat
  | [] => 0
  | c :: rest => c.utf8Size + byteLength rest

/-- A text from a byte offset on. -/
def dropBytes : Nat → List Char → List Char
  | 0, s => s
  | _, [] => []
  | n, c :: rest => dropBytes (n - c.utf8Size) rest

/-- A text up to a byte offset. -/
def takeBytes : Nat → List Char → List Char
  | 0, _ => []
  | _, [] => []
  | n, c :: rest => c :: takeBytes (n - c.utf8Size) rest

/-- A text between two byte offsets. -/
def slice (s : List Char) (start stop : Nat) : List Char :=
  takeBytes (stop - start) (dropBytes start s)

/-! ## Bytes of UTF-8 -/

/-- The bytes of a text. -/
def bytes (s : List Char) : List UInt8 := s.flatMap String.utf8EncodeChar

end FormulaOutline.Text
