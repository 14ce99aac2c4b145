import FormulaOutline.Text.Line

/-!
# Line and column

Positions count from one; a column is a number of characters.
-/

namespace FormulaOutline.Text

/-- A place in a text: a byte offset, and the line and column it is shown at. -/
structure Position where
  offset : Nat
  line : Nat
  column : Nat
deriving DecidableEq, Repr

/-- The start of a text. -/
def Position.start : Position := ⟨0, 1, 1⟩

/-- The place after a character on the same line. -/
def Position.advance (p : Position) (c : Char) : Position :=
  ⟨p.offset + c.utf8Size, p.line, p.column + 1⟩

/-- The place after a character; a newline starts a line. -/
def Position.next (p : Position) (c : Char) : Position :=
  if c = '\n' then ⟨p.offset + c.utf8Size, p.line + 1, 1⟩ else p.advance c

/-- The place after a text on the same line. -/
def Position.along (p : Position) (s : List Char) : Position := s.foldl Position.advance p

/-- The place after a text. -/
def Position.after (p : Position) (s : List Char) : Position := s.foldl Position.next p

/-- Walks from a place until the offset is reached. -/
def Position.walk (offset : Nat) : Position → List Char → Position
  | p, [] => p
  | p, c :: rest => if offset ≤ p.offset then p else walk offset (p.next c) rest

/-- The place of a byte offset in a text, the end for an offset behind it. -/
def positionAt (source : List Char) (offset : Nat) : Position :=
  Position.walk offset .start source

end FormulaOutline.Text
