import FormulaOutline.Config.Basic
import FormulaOutline.Evaluation.Expression
import FormulaOutline.Provider.Directory
import FormulaOutline.Scope.Build
import FormulaOutline.Session.Handlers

/-!
# Sessions

A session is a scope tree at work: the tree, the evaluations under way, the notices that are not
delivered yet, and the time.

* `Session.start` starts the evaluation of a scope, `Session.complete` stores what came of it.
* `Session.publish` puts a result on a scope.
* `Session.disable` and `Session.rebuild` change the tree.
-/

namespace FormulaOutline

/-- An evaluation under way: a process for each part of the scope's bullet. -/
structure Task where
  run : Publisher
  parts : List Process

structure Session where
  tree : ScopeTree
  functions : Registry
  config : EngineConfig
  providers : Directory
  /-- The evaluations under way, in the order in which they go on. -/
  tasks : List Task
  /-- What has happened and has not been delivered, in order. -/
  notices : List Notice
  /-- Whether notices are delivered; they are kept until the first evaluation. -/
  listening : Bool
  handlers : HandlerTable
  /-- All deliveries to handlers so far, in order. -/
  deliveries : List Delivery
  /-- Milliseconds that have passed. -/
  clock : Nat

namespace Session

/-- A session in which nothing has happened. -/
def ofTree (tree : ScopeTree) (functions : Registry) (config : EngineConfig)
    (providers : Directory) : Session :=
  { tree, functions, config, providers
    tasks := []
    notices := []
    listening := false
    handlers := .empty
    deliveries := []
    clock := 0 }

def post (s : Session) (notice : Notice) : Session := { s with notices := s.notices ++ [notice] }

def listen (s : Session) : Session := { s with listening := true }

/-! ## Evaluations -/

/-- The processes that evaluate a scope; a placeholder has none. -/
def partsOf (functions : Registry) (id : ScopeId) (r : ScopeRecord) : List Process :=
  if r.placeholder then [] else Evaluation.evaluateParts functions id r.bullet

/-- A record whose evaluation starts anew. -/
def begun (r : ScopeRecord) : ScopeRecord :=
  { r with epoch := r.epoch + 1, state := if r.state.isIdle then .pending else r.state }

/-- Starts the evaluation of a scope if it is idle, or in any case if it is forced to. The flag says
whether the scope can be evaluated at all. -/
def start (s : Session) (id : ScopeId) (force : Bool) : Bool × Session :=
  match s.tree.record? id with
  | none => (false, s)
  | some r =>
      if r.disabled then (false, s)
      else if !r.state.isIdle && !force then (true, s)
      else
        (true,
          { s with
            tree := s.tree.modify id begun
            tasks := s.tasks ++ [⟨⟨id, r.epoch + 1⟩, partsOf s.functions id r⟩] })

/-- Whether a run of an evaluation still counts. -/
def isCurrent (s : Session) (run : Publisher) : Bool :=
  match s.tree.record? run.scope with
  | none => false
  | some r => r.epoch == run.epoch && !r.disabled

/-- Stores the values of a run if it still counts. -/
def complete (s : Session) (run : Publisher) (values : List Value) : Session :=
  if s.isCurrent run then
    { s with tree := s.tree.modify run.scope fun r => { r with state := .resolved values } }.post
      ⟨run.scope, .resolved⟩
  else s

/-- Whether a result of a run, or one from outside, may be put on a scope. -/
def accepts (s : Session) (run : Option Publisher) (target : ScopeId) : Bool :=
  run.all s.isCurrent && !s.tree.isDisabled target

/-- Puts a result on a scope. -/
def publish (s : Session) (run : Option Publisher) (target : ScopeId) (name : String)
    (data : Value) : Session :=
  if s.accepts run target then
    let result : ComputationResult :=
      ⟨name, data, run.map Publisher.scope, (run.map Publisher.epoch).getD 0⟩
    { s with
      tree := s.tree.modify target fun r =>
        { r with results := ScopeRecord.insertResult result r.results } }.post
      ⟨target, .result⟩
  else s

/-! ## Changes of the tree -/

/-- Disables a scope and all that it owns. -/
def disable (s : Session) (id : ScopeId) : Session := { s with tree := s.tree.disable id }

/-- Makes a scope anew from a document. Handlers of the scope move to the new one, those of the
scopes that are gone with it are dropped. -/
def rebuild (s : Session) (id : ScopeId) (d : Document) : Except EvalError (ScopeId × Session) :=
  (s.tree.rebuild id d).map fun (new, gone, tree) =>
    (new, { s with tree, handlers := (s.handlers.transfer id new).dropScopes gone })

/-! ## Delivery -/

/-- The scopes to which a notice goes: its origin and the scopes above it, up to a disabled one. -/
def audience (t : ScopeTree) (origin : ScopeId) : List ScopeId :=
  ((t.upward origin).takeWhile (!·.2.disabled)).map Prod.fst

/-- What the handlers get of a notice. -/
def deliver (s : Session) (notice : Notice) : List Delivery :=
  (audience s.tree notice.origin).flatMap fun scope =>
    (s.handlers.on scope).map fun token => ⟨token, notice, scope⟩

/-- Delivers all notices, the first one first. -/
def dispatch (s : Session) : Session :=
  if s.listening then
    { s with notices := [], deliveries := s.deliveries ++ s.notices.flatMap s.deliver }
  else s

/-- Takes the deliveries so far. -/
def takeDeliveries (s : Session) : List Delivery × Session :=
  (s.deliveries, { s with deliveries := [] })

end Session

end FormulaOutline
