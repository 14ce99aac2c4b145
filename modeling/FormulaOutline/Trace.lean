import FormulaOutline.Formula.Encoding
import FormulaOutline.Json.Writer

/-!
# Tracing a bullet

Shows how a bullet is read: its tokens, its tree, the nodes it refers to, and its canonical text.
-/

namespace FormulaOutline.Trace

open Formula Text

/-- What a run prints, and its exit code. -/
structure Report where
  code : Nat
  stdout : String
  stderr : String

/-- Lines with a line end after each. -/
def unlines (lines : List String) : String := String.join (lines.map (· ++ "\n"))

def doubleRule : String := String.ofList (List.replicate 63 '═')

def singleRule : String := String.ofList (List.replicate 61 '─')

def usage : List String :=
  ["Usage: cargo run --bin trace_bullet '<bullet text>'",
   "",
   "Example:",
   "  cargo run --bin trace_bullet 'km: \x7bDistance(from: #[home], to: #[hotel])\x7d'"]

/-- A number on the right of four columns. -/
def alignRight (n : Nat) : String :=
  let digits := Number.digitsOf n
  String.ofList (List.replicate (4 - digits.length) ' ' ++ digits)

/-- A number on the left of four columns. -/
def alignLeft (n : Nat) : String :=
  let digits := Number.digitsOf n
  String.ofList (digits ++ List.replicate (4 - digits.length) ' ')

/-- The bytes of a token and how it is shown. -/
def tokenLine (start stop : Nat) (shown : String) : String :=
  "  " ++ alignRight start ++ ".." ++ alignLeft stop ++ " " ++ shown

def tokenLines (lexed : Lexed) : List String :=
  lexed.tokens.map (fun t => tokenLine t.span.start t.span.stop t.kind.display) ++
    [tokenLine lexed.stop.offset lexed.stop.offset endOfInput]

/-- The lines before the tree. -/
def opening (source : String) : List String :=
  ["╔" ++ doubleRule,
   "║ BULLET PARSER TRACER",
   "╚" ++ doubleRule,
   "",
   "📝 INPUT:",
   source,
   "",
   "🔍 TOKENS:",
   singleRule] ++
  tokenLines (lex source.toList) ++
  ["  (literal text outside \x7b…\x7d is tokenized only for display)",
   "",
   "🌳 AST:",
   singleRule]

def referenceLines (b : Bullet) : List String :=
  match b.referencedIds with
  | [] => ["  (none)"]
  | ids => ids.map fun id => "  #[" ++ id ++ "]"

/-- The lines from the tree on. -/
def closing (b : Bullet) : List String :=
  [b.toJson.indented,
   "",
   "🔗 REFERENCED IDS:",
   singleRule] ++
  referenceLines b ++
  ["  constant: " ++ if b.isConstant then "true" else "false",
   "",
   "✨ PRETTY PRINTED:",
   singleRule,
   b.pretty]

/-- Traces the bullet that the arguments make up, with a space between them. -/
def run (args : List String) : Report :=
  if args.isEmpty then ⟨1, "", unlines usage⟩
  else
    let source := " ".intercalate args
    match parseBullet source.toList with
    | .error e => ⟨1, unlines (opening source), unlines ["❌ " ++ e.display]⟩
    | .ok b => ⟨0, unlines (opening source ++ closing b), ""⟩

end FormulaOutline.Trace
