import FormulaOutline.Formula.Bullet
import FormulaOutline.View.Value

/-!
# Views of formulas

* `Expr.view` and `Bullet.view` show a tree with the spans of all its nodes.
* `Expr.details` and `Bullet.details` show what can be read off a tree, and the tree if asked for.
-/

namespace FormulaOutline.Formula

def Span.view (s : Span) : Json := .list .natural [s.start, s.stop, s.line, s.column]

/-! ## Trees -/

namespace Expr

/-- A view that begins with the kind of the node. -/
def tagged (kind : String) (s : Span) (fields : List (String × Json)) : Json :=
  .object (("k", .string kind) :: ("span", s.view) :: fields)

mutual

def view : Expr → Json
  | string s v => tagged "string" s [("v", .string v)]
  | number s x => tagged "number" s [("v", .ofNumber x)]
  | undefined s => tagged "undefined" s []
  | reference s id => tagged "id" s [("v", .string id)]
  | name s n => tagged "name" s [("v", .string n)]
  | field s object f => tagged "field" s [("object", view object), ("field", view f)]
  | call s function args =>
      tagged "call" s [("name", .string function), ("args", .array (viewArguments args))]
  | binary s op lhs rhs =>
      tagged "binary" s
        [("op", .string (String.singleton op.symbol)), ("lhs", view lhs), ("rhs", view rhs)]
  | inline s inner => tagged "inline" s [("expr", view inner)]

def viewArguments : List (Argument Expr) → List Json
  | [] => []
  | ⟨n, value, span⟩ :: rest =>
      .object
        [("name", .ofOption .string n), ("value", view value), ("span", span.view),
         ("missing", .bool value.isUndefined)] :: viewArguments rest

end

end Expr

def Bullet.view (b : Bullet) : Json :=
  .object
    [("key", .ofOption (fun k => .object [("name", .string k.name), ("span", k.span.view)]) b.key),
     ("parts", .list Expr.view b.parts), ("span", b.span.view)]

/-! ## Details -/

/-- Whether a text that was written reads as the same tree again. -/
def rereads {α : Type} [BEq α] (again : Except ParseError α) (forget : α → α) (first : α) : Json :=
  match again with
  | .error _ => .string "unparseable"
  | .ok a => .string (if forget a == forget first then "equal" else "different")

/-- What expressions and bullets have in common. -/
def commonDetails (pretty : String) (ids : List NodeId) (constant : Bool) (tree : Option Json) :
    List (String × Json) :=
  [("pretty", .string pretty), ("ids", .texts ids), ("constant", .bool constant)] ++
    (tree.toList.map fun t => ("ast", t))

namespace Expr

/-- The function of a call and the number of its arguments. -/
def callView : Expr → Json
  | call _ function args => .array [.string function, .natural args.length]
  | _ => .null

def details (e : Expr) (withTree : Bool) : Json :=
  .object
    (commonDetails e.pretty e.referencedIds e.isConstant (if withTree then some e.view else none) ++
      [("reparse", rereads (parseExpression (lex e.write)) withoutSpans e), ("call", e.callView)])

end Expr

def Bullet.details (b : Bullet) (withTree : Bool) : Json :=
  .object
    (commonDetails b.pretty b.referencedIds b.isConstant (if withTree then some b.view else none) ++
      [("reparse", rereads (parseBullet b.write) withoutSpans b),
       ("key", .ofOption .string b.keyName),
       ("inline", .natural b.inlineExprs.length),
       ("parts", .natural b.parts.length),
       ("call", .ofOption (fun e => .string e.pretty) b.singleCall?)])

/-! ## Tokens -/

def TokenKind.view : TokenKind → List Json
  | sign _ => [.string "symbol", .null]
  | identifier n => [.string "identifier", .string n]
  | string v => [.string "string", .string v]
  | number x => [.string "number", .ofNumber x]
  | reference id => [.string "idref", .string id]
  | invalid e => [.string "error", .string e.message]

def Span.measured (s : Span) : List Json :=
  [s.view, .natural s.length, .bool (s.length = 0)]

def Token.view (t : Token) : Json :=
  .array (t.kind.view ++ .string t.kind.display :: t.span.measured)

/-- All tokens, and the end of the text behind them. -/
def Lexed.view (l : Lexed) : Json :=
  let stop : Span := ⟨l.stop.offset, l.stop.offset, l.stop.line, l.stop.column⟩
  .array (l.tokens.map Token.view ++
    [.array (.string "eof" :: .null :: .string endOfInput :: stop.measured)])

def ParseError.view (e : ParseError) : List (String × Json) :=
  [("message", .string e.cause.message), ("display", .string e.display),
   ("offset", .natural e.place.offset), ("line", .natural e.place.line),
   ("column", .natural e.place.column)]

end FormulaOutline.Formula
