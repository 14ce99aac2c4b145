import FormulaOutline.Provider.Report
import FormulaOutline.Scope.Reading

/-!
# Processes

An evaluation under way: what it does next, and how it goes on after that. A process reads the
scope tree, waits for scopes and for time to pass, publishes results, asks providers, and lets other
processes run side by side; in the end it has a value.

* `Process.valueOfScope` waits for a scope's value, `Process.typed` also for its type.
-/

namespace FormulaOutline

inductive Process
  | done (v : Value)
  /-- Looks at the scope tree. -/
  | look (next : ScopeTree → Process)
  /-- Waits for the values of a scope, whose evaluation is started if need be. -/
  | await (scope : ScopeId) (next : Option (List Value) → Process)
  /-- Waits for the values of a scope until a deadline. -/
  | waiting (scope : ScopeId) (deadline : Nat) (next : Option (List Value) → Process)
  /-- Lets time pass, in milliseconds. -/
  | sleep (ms : Nat) (next : Process)
  /-- Waits until a deadline. -/
  | sleeping (deadline : Nat) (next : Process)
  /-- Puts a result on a scope. -/
  | publish (target : ScopeId) (name : String) (data : Value) (next : Process)
  /-- Asks a provider. -/
  | consult (query : Query) (next : query.Answer → Process)
  /-- Runs processes side by side. -/
  | gather (parts : List Process) (next : List Value → Process)

namespace Process

instance : Inhabited Process := ⟨done .undefined⟩

def value? : Process → Option Value
  | done v => some v
  | _ => none

/-- The values of processes, if all of them have ended. -/
def values? (ps : List Process) : Option (List Value) := ps.mapM value?

/-! ## Waiting for scopes -/

/-- Waits for scopes, one after the other. -/
def awaitAll (scopes : List ScopeId) (next : Process) : Process :=
  scopes.foldr (fun id rest => await id fun _ => rest) next

/-- Waits for the value of a scope and for the scopes that it points to. -/
def valueOfScope (id : ScopeId) (next : Value → Process) : Process :=
  await id fun
    | none => next .undefined
    | some values => awaitAll (values.filterMap Value.asScope) (look fun t => next (t.value id))

/-- Follows a value to the scope that it points to. -/
def follow (v : Value) (next : Value → Process) : Process :=
  match v with
  | .scope id => valueOfScope id next
  | v => next v

/-- Follows a value to the most specific value of the scope that it points to. -/
def typed (v : Value) (next : Value → Process) : Process :=
  match v with
  | .scope id =>
      look fun t =>
        if t.isLive id then
          valueOfScope id fun plain => look fun t => next ((t.typedValue? id).getD plain)
        else next .undefined
  | v => next v

/-- Waits for the most specific value of a scope. -/
def typedOfScope (id : ScopeId) (next : Value → Process) : Process :=
  valueOfScope id fun _ => look fun t => next ((t.typedValue? id).getD .undefined)

/-- Two processes side by side. -/
def both (first second : Process) (next : Value → Value → Process) : Process :=
  gather [first, second] fun
    | [a, b] => next a b
    | _ => done .undefined

/-- Publishes a result on scopes, one after the other. -/
def publishAll (scopes : List ScopeId) (name : String) (data : Value) (next : Process) : Process :=
  scopes.foldr (fun id rest => publish id name data rest) next

end Process

end FormulaOutline
