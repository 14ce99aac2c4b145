import FormulaOutline.Text.Line

/-!
# Percent encoding

Characters that may not stand for themselves are written byte by byte, each byte as a percent sign
and two hexadecimal digits.

* `percentEncode` keeps the characters of a class and writes all others as bytes.
* `encodeSegment` makes any text a part of a path, `encodeForm` a part of a form.
-/

namespace FormulaOutline.Text

/-- A hexadecimal digit, in capitals. -/
def upperHexDigit (n : Nat) : Char := (Nat.digitChar n).toUpper

/-- A byte as a percent sign and two digits. -/
def percentByte (b : UInt8) : List Char :=
  ['%', upperHexDigit (b.toNat / 16), upperHexDigit (b.toNat % 16)]

/-- The bytes of a character. -/
def percentChar (c : Char) : List Char := (bytes [c]).flatMap percentByte

/-- Writes the bytes of all characters that are not kept. -/
def percentEncode (keep : Char → Bool) (s : List Char) : List Char :=
  s.flatMap fun c => if keep c then [c] else percentChar c

/-! ## Parts of paths -/

/-- A character that has no meaning of its own in addresses. -/
def isUnreserved (c : Char) : Bool :=
  c.isAlphanum || c == '-' || c == '_' || c == '.' || c == '~'

/-- A text as a part of a path. -/
def encodeSegment (s : List Char) : List Char := percentEncode isUnreserved s

/-! ## Parts of forms -/

def isFormChar (c : Char) : Bool :=
  c.isAlphanum || c == '*' || c == '-' || c == '.' || c == '_'

/-- A text as a name or a value of a form, where a plus sign is a space. -/
def encodeForm (s : List Char) : List Char :=
  s.flatMap fun c => if c = ' ' then ['+'] else percentEncode isFormChar [c]

/-- Names and values of a form. -/
def encodePairs (pairs : List (String × String)) : List Char :=
  ['&'].intercalate (pairs.map fun (n, v) => encodeForm n.toList ++ '=' :: encodeForm v.toList)

end FormulaOutline.Text
