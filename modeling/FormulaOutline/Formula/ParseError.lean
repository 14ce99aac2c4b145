import FormulaOutline.Formula.Token

/-!
# Parse errors

Why a text is no formula, and where.
-/

namespace FormulaOutline.Formula

open Text

/-- Why a text is no formula. A token that stands in the wrong place is shown, `none` is the end. -/
inductive SyntaxError
  | lexical (cause : LexError)
  | noExpression
  | unexpected (found : Option TokenKind)
  | missing (sign : Sign) (found : Option TokenKind)
  | noIdentifier
  | unterminated
  | noKey
  | noBrace
  | trailingText
deriving BEq, Repr

/-- How a token or the end of the input is shown. -/
def displayFound (found : Option TokenKind) : String :=
  (found.map TokenKind.display).getD endOfInput

def SyntaxError.message : SyntaxError → String
  | .lexical cause => "Lexer error: " ++ cause.message
  | .noExpression => "Expected expression"
  | .unexpected found => "Unexpected token: " ++ displayFound found
  | .missing s found =>
      "Expected '" ++ String.singleton s.char ++ "', found " ++ displayFound found
  | .noIdentifier => "Expected identifier"
  | .unterminated => "Unterminated inline expression"
  | .noKey => "Expected property key"
  | .noBrace => "Expected '\x7b'"
  | .trailingText => "Unexpected text after inline expression"

structure ParseError where
  cause : SyntaxError
  place : Position
deriving BEq, Repr

def ParseError.display (e : ParseError) : String :=
  "Parse error at line " ++ toString e.place.line ++ ", column " ++ toString e.place.column ++
    ": " ++ e.cause.message

end FormulaOutline.Formula
