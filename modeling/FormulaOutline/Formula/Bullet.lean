import FormulaOutline.Formula.Parser
import FormulaOutline.Formula.Printer

/-!
# Bullets

The text of a node: literal text with formulas between braces, and perhaps a key before a colon.

* `parseBullet` reads a text, `bulletOrLiteral` takes a text that cannot be read literally.
* `parseInline` reads a text that is one formula between braces.
* `splitInline_append` says that finding the closing brace loses no character.
-/

namespace FormulaOutline.Formula

open Text

/-- The key of a bullet, by which other bullets name it. -/
structure BulletKey where
  name : String
  span : Span
deriving BEq, Repr

structure Bullet where
  key : Option BulletKey
  parts : List Expr
  span : Span
deriving BEq, Repr

/-! ## Finding the closing brace -/

/-- The text up to the first closing brace outside string literals, and the text after it. The
flag says whether a string literal is open. -/
def splitInline : Bool → List Char → Option (List Char × List Char)
  | _, [] => none
  | false, '\x7d' :: rest => some ([], rest)
  | false, '"' :: rest => (splitInline true rest).map fun (inside, after) => ('"' :: inside, after)
  | true, '"' :: rest => (splitInline false rest).map fun (inside, after) => ('"' :: inside, after)
  | true, '\\' :: c :: rest =>
      (splitInline true rest).map fun (inside, after) => ('\\' :: c :: inside, after)
  | quoted, c :: rest => (splitInline quoted rest).map fun (inside, after) => (c :: inside, after)

theorem splitInline_append {quoted : Bool} {s inside after : List Char}
    (h : splitInline quoted s = some (inside, after)) : inside ++ '\x7d' :: after = s := by
  fun_induction splitInline quoted s generalizing inside after with
  | case1 => simp at h
  | case2 => simp_all
  | case3 rest ih | case4 rest ih | case5 c rest ih | case6 quoted c rest _ _ _ _ ih =>
    obtain ⟨⟨i, a⟩, found, same⟩ := Option.map_eq_some_iff.1 h
    simp only [Prod.mk.injEq] at same
    obtain ⟨rfl, rfl⟩ := same
    simp [ih found]

theorem splitInline_length_lt {quoted : Bool} {s inside after : List Char}
    (h : splitInline quoted s = some (inside, after)) : after.length < s.length := by
  have := congrArg List.length (splitInline_append h)
  simp at this
  omega

/-! ## Parts -/

/-- The formula between the brace at `start` and the closing brace, with the text after it. -/
def parseBraced (start : Position) (inside : List Char) : Except ParseError Expr :=
  let stop := start.after ('\x7b' :: inside ++ ['\x7d'])
  (parseExpression (lexFrom (start.next '\x7b') inside)).map (Expr.inline (.between start stop))

/-- Literal texts and formulas in turn, from a place on. -/
def parseParts (p : Position) (s : List Char) : Except ParseError (List Expr) :=
  match s with
  | [] => .ok []
  | '\x7b' :: rest =>
      match _found : splitInline false rest with
      | none => .error ⟨.unterminated, p⟩
      | some (inside, after) => do
          let part ← parseBraced p inside
          let more ← parseParts (p.after ('\x7b' :: inside ++ ['\x7d'])) after
          .ok (part :: more)
  | c :: rest => do
      let text := c :: rest.takeWhile (· != '\x7b')
      let stop := p.after text
      let more ← parseParts stop (rest.dropWhile (· != '\x7b'))
      .ok (.string (.between p stop) (String.ofList text) :: more)
termination_by s.length
decreasing_by
  · have := splitInline_length_lt _found
    simp
    omega
  · have := (List.dropWhile_sublist (l := rest) (· != '\x7b')).length_le
    simp
    omega

/-! ## Keys -/

def isKeyChar (c : Char) : Bool := isAlphabetic c || isNumeric c || c == '_' || c == ' '

/-- The spaces and tabs that may stand before a formula or a value. -/
def isInlineBlank (c : Char) : Bool := c == ' ' || c == '\t'

/-- The characters before the colon of a key, with the text after the colon. -/
def splitKey (source : List Char) : Option (List Char × List Char) :=
  let raw := source.takeWhile isKeyChar
  match source.dropWhile isKeyChar with
  | ':' :: rest => if isBlankText raw then none else some (raw, rest)
  | _ => none

/-- The key that is written as the given characters at the start of a source. -/
def BulletKey.ofRaw (raw : List Char) : BulletKey :=
  let start := Position.start.after (raw.takeWhile isBlank)
  ⟨String.ofList (joinWords raw), .between start (start.after (trim raw))⟩

/-! ## Whole texts -/

def spanOfSource (source : List Char) : Span := .between .start (Position.start.after source)

/-- Reads a text as a bullet. -/
def parseBullet (source : List Char) : Except ParseError Bullet := do
  match splitKey source with
  | none =>
      let parts ← parseParts .start source
      .ok ⟨none, parts, spanOfSource source⟩
  | some (raw, rest) =>
      let start := Position.start.after (raw ++ ':' :: rest.takeWhile isInlineBlank)
      let parts ← parseParts start (rest.dropWhile isInlineBlank)
      .ok ⟨some (.ofRaw raw), parts, spanOfSource source⟩

/-- Reads a text as a bullet with a key. -/
def parseProperty (source : List Char) : Except ParseError Bullet := do
  let bullet ← parseBullet source
  if bullet.key.isNone then .error ⟨.noKey, .start⟩ else .ok bullet

/-- Reads a text as one formula between braces; blanks may stand around it. -/
def parseInline (source : List Char) : Except ParseError Expr := do
  let start := Position.start.after (source.takeWhile isInlineBlank)
  match source.dropWhile isInlineBlank with
  | '\x7b' :: rest =>
      match splitInline false rest with
      | none => .error ⟨.unterminated, start⟩
      | some (inside, after) =>
          let e ← parseBraced start inside
          if isBlankText after then .ok e
          else .error ⟨.trailingText, start.after ('\x7b' :: inside ++ ['\x7d'])⟩
  | _ => .error ⟨.noBrace, start⟩

namespace Bullet

def literal (source : List Char) : Bullet :=
  let span : Span := ⟨0, byteLength source, 1, 1⟩
  ⟨none, if source = [] then [] else [.string span (String.ofList source)], span⟩

def keyName (b : Bullet) : Option String := b.key.map BulletKey.name

def isConstant (b : Bullet) : Bool := b.parts.all Expr.isConstant

/-- The nodes that a bullet refers to, each at its first occurrence. -/
def referencedIds (b : Bullet) : List NodeId := (b.parts.flatMap Expr.references).eraseDups

def inlineExprs (b : Bullet) : List Expr := b.parts.filter Expr.isInline

def withoutSpans (b : Bullet) : Bullet :=
  ⟨b.key.map fun k => ⟨k.name, .none⟩, b.parts.map Expr.withoutSpans, .none⟩

/-- Whether a part is literal text without any character but blanks. -/
def isBlankPart : Expr → Bool
  | .string _ v => isBlankText v.toList
  | _ => false

/-- The call of a bullet without a key that is nothing but one formula that calls a function. -/
def singleCall? (b : Bullet) : Option Expr :=
  if b.key.isSome then none
  else
    match b.parts.filter (!isBlankPart ·) with
    | [.inline _ inner] => if inner.isCall then some inner else none
    | _ => none

/-- The text of a part; literal text stands for itself. -/
def writePart : Expr → List Char
  | .string _ v => v.toList
  | .inline s inner => (Expr.inline s inner).write
  | e => '\x7b' :: e.write ++ ['\x7d']

/-- The canonical text of a bullet. -/
def write (b : Bullet) : List Char :=
  let key := match b.key with
    | some k => k.name.toList ++ [':', ' ']
    | none => []
  key ++ b.parts.flatMap writePart

def pretty (b : Bullet) : String := String.ofList b.write

end Bullet

/-- Reads a text as a bullet; one that cannot be read is literal text. -/
def bulletOrLiteral (source : List Char) : Bullet :=
  match parseBullet source with
  | .ok b => b
  | .error _ => .literal source

/-! ## Canonical texts -/

def canonicalBullet (source : List Char) : Except ParseError String :=
  (parseBullet source).map Bullet.pretty

/-- The canonical text of a formula's source, without braces. -/
def canonicalExpr (source : List Char) : Except ParseError String :=
  (parseExpression (lex source)).map Expr.pretty

end FormulaOutline.Formula
