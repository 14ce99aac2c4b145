import FormulaOutline.Formula.Bullet
import FormulaOutline.Json.Decode

/-!
# Formulas as JSON

* `Bullet.toJson` and `Bullet.ofJson?` write and read bullets with all their expressions.
-/

namespace FormulaOutline.Formula

/-! ## Writing -/

def Span.toJson (s : Span) : Json :=
  .object [("start", .natural s.start), ("end", .natural s.stop), ("line", .natural s.line),
    ("column", .natural s.column)]

def Operator.title : Operator → String
  | .add => "Add"
  | .sub => "Sub"
  | .mul => "Mul"
  | .div => "Div"

def withKind (kind : Json) (s : Span) : Json := .object [("kind", kind), ("span", s.toJson)]

namespace Expr

mutual

def toJson : Expr → Json
  | string s v => withKind (.object [("StringLiteral", .string v)]) s
  | number s v => withKind (.object [("NumberLiteral", .float v)]) s
  | undefined s => withKind (.string "Undefined") s
  | reference s i => withKind (.object [("IdentifierRef", .string i)]) s
  | name s n => withKind (.object [("NameRef", .string n)]) s
  | field s o f =>
      withKind (.object [("FieldAccess", .object [("object", toJson o), ("field", toJson f)])]) s
  | call s f args =>
      withKind (.object [("FunctionCall",
        .object [("name", .string f), ("args", .array (argumentsToJson args))])]) s
  | binary s op l r =>
      withKind (.object [("Binary",
        .object [("op", .string op.title), ("lhs", toJson l), ("rhs", toJson r)])]) s
  | inline s i => withKind (.object [("InlineExpr", toJson i)]) s

def argumentsToJson : List (Argument Expr) → List Json
  | [] => []
  | a :: rest =>
      .object [("name", Json.ofOption .string a.name), ("value", toJson a.value),
        ("span", a.span.toJson)] :: argumentsToJson rest

end

end Expr

def BulletKey.toJson (k : BulletKey) : Json :=
  .object [("name", .string k.name), ("span", k.span.toJson)]

def Bullet.toJson (b : Bullet) : Json :=
  .object [("key", Json.ofOption BulletKey.toJson b.key),
    ("parts", .array (b.parts.map Expr.toJson)), ("span", b.span.toJson)]

/-! ## Reading -/

def Span.ofJson? : Json.Decoder Span := fun j => do
  let fields ← j.fields? 4
  let start ← fields.required 0 "start" (Json.asNat? Json.wordBound)
  let stop ← fields.required 1 "end" (Json.asNat? Json.wordBound)
  let line ← fields.required 2 "line" (Json.asNat? Json.wordBound)
  let column ← fields.required 3 "column" (Json.asNat? Json.wordBound)
  some ⟨start, stop, line, column⟩

def Operator.ofJson? : Json.Decoder Operator := Json.oneOf? all title

/-- Reads an argument whose value is read by `d`. -/
def argumentOfJson? (d : Json.Decoder Expr) : Json.Decoder (Argument Expr) := fun j => do
  let fields ← j.fields? 3
  let name ← fields.optional 0 "name" Json.asString?
  let value ← fields.required 1 "value" d
  let span ← fields.required 2 "span" Span.ofJson?
  some ⟨name, value, span⟩

namespace Expr

/-- Reads the kind of an expression, `d` reads the expressions in it. -/
def kindOfJson? (d : Json.Decoder Expr) (s : Span) : Json.Decoder Expr := fun j => do
  let (tag, content) ← j.alternative?
  match tag, content with
  | "Undefined", content => if Json.isEmptyContent content then some (undefined s) else none
  | "StringLiteral", some j => j.asString?.map (string s)
  | "NumberLiteral", some j => j.asFloat?.map (number s)
  | "IdentifierRef", some j => j.asString?.map (reference s)
  | "NameRef", some j => j.asString?.map (Expr.name s)
  | "FieldAccess", some j =>
      let fields ← j.fields? 2
      let object ← fields.required 0 "object" d
      let f ← fields.required 1 "field" d
      some (field s object f)
  | "FunctionCall", some j =>
      let fields ← j.fields? 2
      let function ← fields.required 0 "name" Json.asString?
      let args ← fields.required 1 "args" (Json.asList? (argumentOfJson? d))
      some (call s function args)
  | "Binary", some j =>
      let fields ← j.fields? 3
      let op ← fields.required 0 "op" Operator.ofJson?
      let lhs ← fields.required 1 "lhs" d
      let rhs ← fields.required 2 "rhs" d
      some (binary s op lhs rhs)
  | "InlineExpr", some j => (d j).map (inline s)
  | _, _ => none

/-- Reads an expression that is nested less than `depth` deep. -/
def ofJsonWithin? : (depth : Nat) → Json.Decoder Expr
  | 0, _ => none
  | depth + 1, j => do
      let fields ← j.fields? 2
      let span ← fields.required 1 "span" Span.ofJson?
      fields.required 0 "kind" (kindOfJson? (ofJsonWithin? depth) span)

def ofJson? : Json.Decoder Expr := ofJsonWithin? Json.depthLimit

end Expr

def BulletKey.ofJson? : Json.Decoder BulletKey := fun j => do
  let fields ← j.fields? 2
  let name ← fields.required 0 "name" Json.asString?
  let span ← fields.required 1 "span" Span.ofJson?
  some ⟨name, span⟩

def Bullet.ofJson? : Json.Decoder Bullet := fun j => do
  let fields ← j.fields? 3
  let key ← fields.optional 0 "key" BulletKey.ofJson?
  let parts ← fields.required 1 "parts" (Json.asList? Expr.ofJson?)
  let span ← fields.required 2 "span" Span.ofJson?
  some ⟨key, parts, span⟩

end FormulaOutline.Formula
