import FormulaOutline.Number.Layout
import FormulaOutline.Text.Position

/-!
# Tokens

What a formula is made of, and where each piece stands in the source.

* `Span` is a range of bytes together with the line and column of its start.
* `Token` is a piece of the source with its meaning and its own text.
-/

namespace FormulaOutline

/-- Identifies a node of a document. -/
abbrev NodeId := String

namespace Formula

open Text

/-! ## Spans -/

/-- The bytes from `start` up to `stop`; `line` and `column` belong to `start`. -/
structure Span where
  start : Nat
  stop : Nat
  line : Nat
  column : Nat
deriving DecidableEq, Repr

/-- The span of what does not stand in a source. -/
def Span.none : Span := ⟨0, 0, 0, 0⟩

/-- The bytes between two places. -/
def Span.between (first last : Position) : Span :=
  ⟨first.offset, last.offset, first.line, first.column⟩

/-- A span drawn out to the end of another. -/
def Span.to (a b : Span) : Span := ⟨a.start, max a.stop b.stop, a.line, a.column⟩

def Span.length (a : Span) : Nat := a.stop - a.start

/-- The bytes of a source from `start` up to `stop`. -/
def Span.within (source : List Char) (start stop : Nat) : Span :=
  let p := positionAt source start
  ⟨start, stop, p.line, p.column⟩

/-! ## Tokens -/

/-- The signs of formulas. -/
inductive Sign
  | leftBrace
  | rightBrace
  | leftParen
  | rightParen
  | comma
  | colon
  | dot
  | plus
  | minus
  | star
  | slash
deriving DecidableEq, Repr

def Sign.char : Sign → Char
  | .leftBrace => '\x7b'
  | .rightBrace => '\x7d'
  | .leftParen => '('
  | .rightParen => ')'
  | .comma => ','
  | .colon => ':'
  | .dot => '.'
  | .plus => '+'
  | .minus => '-'
  | .star => '*'
  | .slash => '/'

def Sign.all : List Sign :=
  [.leftBrace, .rightBrace, .leftParen, .rightParen, .comma, .colon, .dot, .plus, .minus, .star,
    .slash]

def Sign.ofChar? (c : Char) : Option Sign := all.find? (·.char = c)

/-- Why a piece of the source is no token. -/
inductive LexError
  | unexpected (c : Char)
  | noBracket
  | emptyReference
  | badReference (c : Char)
  | unterminatedReference
  | unterminatedString
deriving DecidableEq, Repr

def LexError.message : LexError → String
  | .unexpected c => "Unexpected character: " ++ String.singleton c
  | .noBracket => "Expected '[' after '#'"
  | .emptyReference => "Empty node reference"
  | .badReference c => "Invalid character in node reference: " ++ String.singleton c
  | .unterminatedReference => "Unterminated node reference"
  | .unterminatedString => "Unterminated string"

inductive TokenKind
  | sign (sign : Sign)
  | identifier (name : String)
  | string (value : String)
  | number (value : Float)
  | reference (id : NodeId)
  | invalid (cause : LexError)
deriving BEq, Repr

/-- How a token is named in messages. -/
def TokenKind.display : TokenKind → String
  | .sign s => String.singleton s.char
  | .identifier name => name
  | .string value => "\"" ++ value ++ "\""
  | .number value => Number.plain value
  | .reference id => "#[" ++ id ++ "]"
  | .invalid cause => "error: " ++ cause.message

/-- How the end of the tokens is named in messages. -/
def endOfInput : String := "end of input"

structure Token where
  kind : TokenKind
  text : List Char
  span : Span
deriving Repr

/-- The tokens of a range of a source, and the place where the range ends. -/
structure Lexed where
  tokens : List Token
  stop : Position
deriving Repr

end Formula

end FormulaOutline
