import FormulaOutline.Session.Step

/-!
# Running sessions

Time passes only when nothing can go on without it; then it passes until the next deadline.

* `Session.settle` runs all evaluations, those that have not begun too.
* `Session.finish` runs a process to its end, with the evaluations beside it.
-/

namespace FormulaOutline.Session

/-! ## Going on without time -/

/-- One more than the idle scopes and the evaluations under way: starting or ending an evaluation
makes it less. -/
def work (s : Session) : Nat :=
  2 * s.tree.arena.entries.countP (fun (_, r) => r.state.isIdle && !r.disabled) + s.tasks.length

/-- Runs each evaluation under way once. -/
def round (s : Session) : Session := s.tasks.foldl turn { s with tasks := [] }

/-- Runs evaluations as long as one starts or ends, at most `fuel` times each. -/
def roundsWithin : (fuel : Nat) → Session → Session
  | 0, s => s
  | fuel + 1, s =>
      let next := s.round
      if next.work < s.work then roundsWithin fuel next else next

/-- Runs all evaluations until each of them waits for time to pass, and delivers what happened. -/
def goOn (s : Session) : Session := (roundsWithin (s.work + 1) s).dispatch

/-! ## Time -/

/-- The next deadline of the evaluations and of a process beside them. -/
def nextDeadline? (s : Session) (p : Process) : Option Nat :=
  let later := (p.deadlines ++ s.tasks.flatMap fun t => Process.deadlinesOf t.parts).filter
    (s.clock < ·)
  later.min?

/-! ## A process beside the evaluations -/

/-- Runs a process to its end, with at most `fuel` pauses. A process that never ends has no
value. -/
def finishWithin : (fuel : Nat) → Process → Session → Value × Session
  | 0, _, s => (.undefined, s)
  | fuel + 1, p, s =>
      let (p, s) := s.poll none p
      match p.value? with
      | some v => (v, s)
      | none =>
          let next := s.goOn
          if next.work < s.work then finishWithin fuel p next
          else
            match next.nextDeadline? p with
            | some time => finishWithin fuel p { next with clock := time }
            | none => (.undefined, next)

/-- More pauses than a session takes. -/
def patience : Nat := 1000000

/-- Runs a process to its end, which other evaluations need not reach. -/
def finish (s : Session) (p : Process) : Value × Session := finishWithin patience p s

/-- Lets time pass. -/
def pass (s : Session) (ms : Nat) : Session :=
  (s.goOn.finish (.sleep ms (.done .undefined))).2.goOn

/-! ## What can be asked beside the evaluations -/

def valueOfScope (id : ScopeId) : Process := .valueOfScope id .done

def partOfScope (id : ScopeId) (index : Nat) : Process :=
  .await id fun values => .done (((values.getD [])[index]?).getD .undefined)

/-- A value, or that of the scope that it points to. -/
def followed (v : Value) : Process := .follow v .done

def expression (s : Session) (id : ScopeId) (e : Formula.Expr) : Process :=
  Evaluation.evaluate s.functions id e .done

/-- The values of the parts of a bullet in a scope, as a list. -/
def bullet (s : Session) (id : ScopeId) (b : Formula.Bullet) : Process :=
  .gather (Evaluation.evaluateParts s.functions id b) fun values => .done (.list values)

/-! ## Evaluating -/

/-- Starts the evaluation of a scope and of all that it owns; nothing runs yet. -/
def startAll (s : Session) (id : ScopeId) : Session :=
  (s.tree.owned id).foldl (fun s id => (s.start id false).2) s.listen

/-- Starts the evaluation of a scope, also if it is under way or has ended. Notices are delivered
from now on, even if the scope cannot be evaluated. -/
def restart (s : Session) (id : ScopeId) : Except EvalError Unit × Session :=
  let (started, s) := s.listen.start id true
  (if started then .ok () else .error (.scopeNotFound id.text), s)

/-- The enabled scopes whose values are not known. -/
def unresolved (s : Session) : List ScopeId :=
  (s.tree.arena.entries.filter fun (_, r) => !r.disabled && !r.state.isResolved).map Prod.fst

/-- Waits for scopes, one after the other; the flag says whether one of them got values while it was
waited for. -/
def awaitEach (s : Session) : List ScopeId → Bool × Session
  | [] => (false, s)
  | id :: rest =>
      let (_, s) := s.finish (.await id fun _ => .done .undefined)
      let (later, final) := s.awaitEach rest
      (s.tree.isResolved id || later, final)

/-- Waits for all scopes, again as long as one gets values, at most `fuel` times. -/
def settleWithin : (fuel : Nat) → Session → Session
  | 0, s => s
  | fuel + 1, s =>
      match s.unresolved with
      | [] => s.goOn
      | pending =>
          let (progress, s) := s.awaitEach pending
          if progress then settleWithin fuel s else s.goOn

/-- Runs all evaluations until no more scopes get values. -/
def settle (s : Session) : Session := settleWithin (s.unresolved.length + 1) s

end FormulaOutline.Session
