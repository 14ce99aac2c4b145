import FormulaOutline.Formula.Expr
import FormulaOutline.Formula.Lexer
import FormulaOutline.Formula.ParseError

/-!
# Reading expressions

A formula is a sum of products of operands, an operand is a primary with fields, a primary is a
literal, a reference, a name, a call or a formula in parentheses.

* Each reader takes tokens and gives back those it leaves.
* `nested` is the reader for the formulas inside parentheses and calls; `expression` ties the knot.
* `parseExpression` reads the tokens of a range as one formula.
-/

namespace FormulaOutline.Formula

open Text

/-- Why reading stopped, and the tokens at which it did. -/
structure Failure where
  cause : SyntaxError
  rest : List Token
deriving Repr

/-- Takes an `α` from the front of the tokens. -/
abbrev Reader (α : Type) := List Token → Except Failure (α × List Token)

def nextKind (ts : List Token) : Option TokenKind := ts.head?.map Token.kind

def Token.sign? (t : Token) : Option Sign :=
  match t.kind with
  | .sign s => some s
  | _ => none

/-- Whether the next token is a given sign. -/
def startsWith (s : Sign) (ts : List Token) : Bool := ts.head?.bind Token.sign? == some s

/-- Takes a sign and gives its span. -/
def expectSign (s : Sign) : Reader Span
  | [] => .error ⟨.missing s none, []⟩
  | t :: rest =>
      if t.sign? = some s then .ok (t.span, rest) else .error ⟨.missing s (some t.kind), t :: rest⟩

/-! ## Operators -/

def additive? : Sign → Option Operator
  | .plus => some .add
  | .minus => some .sub
  | _ => none

def multiplicative? : Sign → Option Operator
  | .star => some .mul
  | .slash => some .div
  | _ => none

/-- A binary expression over the spans of its operands. -/
def binaryOver (op : Operator) (lhs rhs : Expr) : Expr :=
  .binary (lhs.span.to rhs.span) op lhs rhs

/-- Operands joined to `lhs` by the operators of one level, from left to right; `fuel` bounds their
number. -/
def chain (level : Sign → Option Operator) (operand : Reader Expr) (fuel : Nat) (lhs : Expr) :
    Reader Expr := fun ts =>
  match fuel, ts with
  | 0, ts => .ok (lhs, ts)
  | _, [] => .ok (lhs, [])
  | fuel + 1, t :: rest =>
      match t.sign?.bind level with
      | none => .ok (lhs, t :: rest)
      | some op => do
          let (rhs, rest) ← operand rest
          chain level operand fuel (binaryOver op lhs rhs) rest

/-- Operands of one level joined by its operators. -/
def leftAssociated (level : Sign → Option Operator) (operand : Reader Expr) : Reader Expr :=
  fun ts => do
    let (lhs, rest) ← operand ts
    chain level operand rest.length lhs rest

/-! ## Calls -/

def isKeyToken (t : Token) : Bool :=
  match t.kind with
  | .identifier _ => true
  | .number _ => true
  | _ => false

/-- The tokens of an argument's name, its colon and what follows. -/
structure ArgumentKey where
  first : Token
  more : List Token
  colon : Token
  rest : List Token

/-- Identifiers and numbers before a colon name an argument. -/
def argumentKey? : List Token → Option ArgumentKey
  | [] => none
  | first :: rest =>
      if isKeyToken first then
        match rest.dropWhile isKeyToken with
        | colon :: after =>
            if colon.sign? = some .colon then
              some ⟨first, rest.takeWhile isKeyToken, colon, after⟩
            else none
        | [] => none
      else none

/-- The characters of tokens, with one space where blanks stand between two of them. -/
def joinTokens : Token → List Token → List Char
  | t, [] => t.text
  | t, next :: rest =>
      if t.span.stop = next.span.start then t.text ++ joinTokens next rest
      else t.text ++ ' ' :: joinTokens next rest

def ArgumentKey.name (k : ArgumentKey) : String := String.ofList (joinTokens k.first k.more)

/-- The value of an argument that ends after its colon. -/
def omittedAfter (colon : Span) : Expr :=
  .undefined ⟨colon.stop, colon.stop, colon.line, colon.column + 1⟩

def argument (nested : Reader Expr) : Reader (Argument Expr) := fun ts =>
  match argumentKey? ts with
  | none => do
      let (value, rest) ← nested ts
      .ok (⟨none, value, value.span⟩, rest)
  | some key =>
      let start := key.first.span
      if startsWith .comma key.rest || startsWith .rightParen key.rest then
        .ok (⟨some key.name, omittedAfter key.colon.span, start.to key.colon.span⟩, key.rest)
      else do
        let (value, rest) ← nested key.rest
        .ok (⟨some key.name, value, start.to value.span⟩, rest)

/-- Arguments with commas between them; `fuel` bounds the number of commas. -/
def argumentList (nested : Reader Expr) (fuel : Nat) : Reader (List (Argument Expr)) := fun ts => do
  let (first, rest) ← argument nested ts
  match fuel with
  | 0 => .ok ([first], rest)
  | fuel + 1 =>
      if startsWith .comma rest then
        let (more, rest) ← argumentList nested fuel rest.tail
        .ok (first :: more, rest)
      else .ok ([first], rest)

/-- What stands between the parentheses of a call. -/
def arguments (nested : Reader Expr) : Reader (List (Argument Expr)) := fun ts =>
  if startsWith .rightParen ts then .ok ([], ts) else argumentList nested ts.length ts

/-! ## Primaries -/

def Token.identifier? (t : Token) : Option String :=
  match t.kind with
  | .identifier name => some name
  | _ => none

/-- A call if the identifier `first` stands before a parenthesis, else a name of one or more
identifiers. -/
def nameOrCall (nested : Reader Expr) (start : Span) (first : String) : Reader Expr := fun ts =>
  if startsWith .leftParen ts then do
    let (args, rest) ← arguments nested ts.tail
    let (close, rest) ← expectSign .rightParen rest
    .ok (.call (start.to close) first args, rest)
  else
    let words := ts.takeWhile (·.identifier?.isSome)
    let span := words.foldl (fun s t => s.to t.span) start
    .ok (.name span (" ".intercalate (first :: words.filterMap Token.identifier?)),
      ts.drop words.length)

def primary (nested : Reader Expr) : Reader Expr
  | [] => .error ⟨.unexpected none, []⟩
  | t :: rest =>
      match t.kind with
      | .string value => .ok (.string t.span value, rest)
      | .number value => .ok (.number t.span value, rest)
      | .reference id => .ok (.reference t.span id, rest)
      | .sign .leftParen => do
          let (inner, rest) ← nested rest
          let (close, rest) ← expectSign .rightParen rest
          .ok (inner.withSpan (t.span.to close), rest)
      | .identifier name => nameOrCall nested t.span name rest
      | kind => .error ⟨.unexpected (some kind), t :: rest⟩

/-- The fields taken of an object, one after the other. -/
def fields (object : Expr) : Reader Expr
  | dot :: t :: rest =>
      if dot.sign? = some .dot then
        match t.kind with
        | .identifier name =>
            fields (.field (object.span.to t.span) object (.string t.span name)) rest
        | _ => .error ⟨.noIdentifier, t :: rest⟩
      else .ok (object, dot :: t :: rest)
  | [dot] => if dot.sign? = some .dot then .error ⟨.noIdentifier, []⟩ else .ok (object, [dot])
  | [] => .ok (object, [])

def operand (nested : Reader Expr) : Reader Expr := fun ts => do
  let (object, rest) ← primary nested ts
  fields object rest

/-! ## Whole expressions -/

/-- A formula whose parentheses are nested less than `depth` deep. -/
def expression : (depth : Nat) → Reader Expr
  | 0, ts => .error ⟨.unexpected (nextKind ts), ts⟩
  | depth + 1, ts =>
      leftAssociated additive? (leftAssociated multiplicative? (operand (expression depth))) ts

/-- The place of the next token, or of the end. -/
def placeOf (stop : Position) : List Token → Position
  | [] => stop
  | t :: _ => ⟨t.span.start, t.span.line, t.span.column⟩

def Token.invalid? (t : Token) : Option LexError :=
  match t.kind with
  | .invalid cause => some cause
  | _ => none

/-- The first piece of the source that is no token. -/
def firstInvalid? (stop : Position) : List Token → Option ParseError
  | [] => none
  | t :: rest =>
      match t.invalid? with
      | some cause => some ⟨.lexical cause, placeOf stop (t :: rest)⟩
      | none => firstInvalid? stop rest

/-- Reads tokens as one formula. -/
def parseExpression (lexed : Lexed) : Except ParseError Expr :=
  match firstInvalid? lexed.stop lexed.tokens with
  | some e => .error e
  | none =>
      if lexed.tokens.isEmpty then .error ⟨.noExpression, lexed.stop⟩
      else
        match expression (lexed.tokens.length + 1) lexed.tokens with
        | .error failure => .error ⟨failure.cause, placeOf lexed.stop failure.rest⟩
        | .ok (e, []) => .ok e
        | .ok (_, t :: rest) => .error ⟨.unexpected (some t.kind), placeOf lexed.stop (t :: rest)⟩

end FormulaOutline.Formula
