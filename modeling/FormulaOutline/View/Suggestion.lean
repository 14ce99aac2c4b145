import FormulaOutline.Function.Builtin
import FormulaOutline.Pattern.Basic
import FormulaOutline.View.Value

/-!
# Views of suggestions, functions and patterns
-/

namespace FormulaOutline

def Suggestion.view (s : Suggestion) : Json :=
  .array [.string s.function, .string s.expression, .ofOption .natural s.rank]

def Parameter.view (p : Parameter) : Json :=
  .array
    [.string p.sourceExpression, .string p.relationship.name, .natural p.distance, p.type.view,
     p.value.view, p.scope.view]

/-! ## Functions -/

def Function.view (f : Function) : Json :=
  .object
    [("name", .string f.name), ("summary", .string f.summary),
     ("autocomplete", .ofOption Suggestion.view f.autocomplete),
     ("parameters", .list (fun p => .array [.string p.name, p.type.view]) f.parameters)]

/-- A registry, and whether it has functions of the given names. -/
def Registry.view (r : Registry) (names : List String) : Json :=
  .object
    [("names", .texts r.names), ("len", .natural r.length), ("empty", .bool r.isEmpty),
     ("functions", .list Function.view r), ("debug", .string r.describe),
     ("lookup", .list (fun n => .list .bool [r.contains n, (r.find? n).isSome]) names)]

/-! ## Arguments -/

def CallArgs.viewSlot (args : CallArgs) (name : String) (index : Nat) : Json :=
  let (slot, value) : String × Json := match args.slot name index with
    | .absent => ("absent", .null)
    | .blank => ("empty", .null)
    | .present v => ("present", v.view)
  .object
    [("slot", .string slot), ("value", value),
     ("named", .ofOption Value.view (args.named? name)),
     ("positional", (args.positionalAt index).view)]

/-- Arguments, and the slots of the given names and positions. -/
def CallArgs.view (args : CallArgs) (slots : List (String × Nat)) : Json :=
  .object
    [("len", .natural args.size), ("empty", .bool args.isEmpty),
     ("named", .array (Value.viewFields args.named)),
     ("slots", .list (fun (name, index) => args.viewSlot name index) slots)]

/-! ## Patterns -/

def Rule.view (r : Rule) : Json :=
  let named (rule : String) (fields : List (String × Json)) : Json :=
    .object (("rule", .string rule) :: fields)
  match r with
  | anchor => named "anchor" []
  | closestAncestor t => named "closest_ancestor" [("type", t.view)]
  | prevSibling t => named "prev_sibling" [("type", t.view)]
  | nextSibling t => named "next_sibling" [("type", t.view)]
  | literal e => named "literal" [("expr", .string e.pretty)]

def Anchor.view (a : Anchor) : Json :=
  .object
    [("name", .string a.name), ("type", a.type.view), ("position", .string a.placement.name)]

def Pattern.view (p : Pattern) : Json :=
  .object
    [("function", .string p.function), ("example", .string p.learnedFrom),
     ("anchor", p.anchor.view),
     ("arguments", .list (fun (n, r) => .array [.ofOption .string n, r.view]) p.arguments)]

def Insertion.view (i : Insertion) : Json :=
  .object
    [("node", .string i.node), ("parent", .string i.parent), ("index", .natural i.index),
     ("text", .string i.text), ("anchor", .string i.anchor)]

end FormulaOutline
