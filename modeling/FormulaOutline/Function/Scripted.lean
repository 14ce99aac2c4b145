import FormulaOutline.Evaluation.Function

/-!
# Scripted functions

Functions that do what a script says, whatever their arguments: for trials.
-/

namespace FormulaOutline

/-- How a scripted call ends. -/
inductive Ending
  | value (v : Value)
  /-- The function fails, and its own name is what could not be resolved. -/
  | failure
  /-- The function breaks down. -/
  | panic

structure Script where
  name : String
  /-- Milliseconds that a call takes. -/
  delay : Option Nat
  /-- The name of a result that is put on each child of the parent of the calling scope. -/
  publish : Option String
  ending : Ending

namespace Script

/-- The result that scripted calls publish. -/
def mark : Value := .text "seen"

def outcome (s : Script) : Outcome :=
  match s.ending with
  | .value v => .ok v
  | .failure => .error (.evaluation (.resolutionFailure s.name))
  | .panic => .error .panicked

/-- Publishes on each child of the parent of a scope. -/
def publishBeside (scope : ScopeId) (name : Option String) (next : Process) : Process :=
  match name with
  | none => next
  | some name =>
      .look fun t => .publishAll (((t.parent? scope).map t.children).getD []) name mark next

def function (s : Script) : Function where
  name := s.name
  summary := ""
  parameters := []
  call _ scope next :=
    let finish := publishBeside scope s.publish (next s.outcome)
    match s.delay with
    | some ms => .sleep ms finish
    | none => finish
  suggestions _ := []
  autocomplete := none

end Script

end FormulaOutline
