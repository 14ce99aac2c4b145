import FormulaOutline.Evaluation.Function
import FormulaOutline.Value.Display

/-!
# Declared arguments

How functions read their declared arguments. An argument that is not given, or that has no value,
is missing; one of a wrong type is an error.
-/

namespace FormulaOutline.Functions

/-- Goes on with the value of a declared argument, if it has one. -/
def withSlot (args : CallArgs) (name : String) (index : Nat) (next : Option Value → Process) :
    Process :=
  match args.slot name index with
  | .absent => next none
  | .blank => next none
  | .present v =>
      .typed v fun resolved => next (if resolved.isUndefined then none else some resolved)

/-- The error for a value of a wrong type. -/
def invalidArgument (function argument : String) (got : Value) : CallError :=
  .evaluation (.invalidArgument function argument ("unexpected value " ++ got.describe))

/-- A value of the right type, or the error for a wrong one. -/
def expect {α : Type} (function argument : String) (read : Value → Option α) (v : Value) :
    Except CallError α :=
  match read v with
  | some a => .ok a
  | none => .error (invalidArgument function argument v)

/-- A value of the right type if there is one. -/
def expectOptional {α : Type} (function argument : String) (read : Value → Option α) :
    Option Value → Except CallError (Option α)
  | none => .ok none
  | some v => (expect function argument read v).map some

/-- Goes on with a result, or ends the call with its error. -/
def orFail {α : Type} (result : Except CallError α) (fail : Outcome → Process)
    (next : α → Process) : Process :=
  match result with
  | .ok a => next a
  | .error e => fail (.error e)

/-- Goes on with the two declared arguments of a function; nothing if one of them is missing. -/
def withPair {α : Type} (function first second : String) (read : Value → Option α)
    (args : CallArgs) (next : Except CallError (Option (α × α)) → Process) : Process :=
  withSlot args first 0 fun a =>
    withSlot args second 1 fun b =>
      match a, b with
      | some a, some b =>
          next do
            let x ← expect function first read a
            let y ← expect function second read b
            .ok (some (x, y))
      | _, _ => next (.ok none)

/-- Asks a provider and goes on with its report. -/
def withReport (query : Query) (fail : Outcome → Process) (next : query.Report → Process) :
    Process :=
  .consult query fun
    | .ok report => next report
    | .error e => fail (.error (.provider e))

end FormulaOutline.Functions
