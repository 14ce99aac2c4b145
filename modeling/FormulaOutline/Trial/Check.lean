import FormulaOutline.Scope.Describe

/-!
# Checks

Checks of evaluated values. A check that fails says what it expected.
-/

namespace FormulaOutline.Check

/-- Passes or says what was expected. -/
def expectThat (condition : Bool) (complaint : String) : Except String Unit :=
  if condition then .ok () else .error complaint

/-- A number within a tolerance of another one. -/
def numberNear (v : Value) (near tolerance : Float) : Except String Unit :=
  match v.asNumber with
  | some n =>
      expectThat ((n - near).abs ≤ tolerance)
        ("Expected " ++ Number.plain near ++ " ± " ++ Number.plain tolerance ++ ", got " ++
          Number.plain n)
  | none =>
      .error ("Expected a number near " ++ Number.plain near ++ ", got: " ++ v.describe)

def missing (v : Value) : Except String Unit :=
  expectThat v.isMissing ("Expected MissingArguments, got: " ++ v.describe)

def undefined (v : Value) : Except String Unit :=
  expectThat v.isUndefined ("Expected Undefined, got: " ++ v.describe)

/-- A record with a given value in a field. -/
def field (v : Value) (name : String) (expected : Value) : Except String Unit :=
  match v with
  | .record _ =>
      let found := v.field name
      expectThat (found == expected)
        ("assertion \x60left == right\x60 failed: Wrong value for field " ++ Text.quoted name ++
          " in " ++ v.describe ++ "\n  left: " ++ found.describe ++ "\n right: " ++
          expected.describe)
  | v => .error ("Expected a record with field " ++ Text.quoted name ++ ", got: " ++ v.describe)

/-! ## Results -/

/-- The latest result of a name on a scope. -/
def result (node : Option NodeId) (results : List ComputationResult) (name : String) :
    Except String Value :=
  match results.reverse.find? (·.name == name) with
  | some r => .ok r.data
  | none =>
      .error ("Expected a " ++ Text.quoted name ++ " computation result on " ++
        ScopeTree.describeNode node ++ ", got: [" ++
        ", ".intercalate (results.map ComputationResult.describe) ++ "]")

end FormulaOutline.Check
