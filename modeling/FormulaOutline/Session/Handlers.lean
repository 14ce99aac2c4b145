import FormulaOutline.Scope.Id

/-!
# Handlers of updates

A handler is registered on a scope and gets what happens to the scope and below it. Here a handler
is no more than the token that it was registered under.

* `HandlerTable.register` and `HandlerTable.unregister` add and take away a handler.
* `HandlerTable.transfer` moves the handlers of a scope, `HandlerTable.dropScopes` drops them.
-/

namespace FormulaOutline

/-- What has happened to a scope. -/
inductive NoticeKind
  /-- Its evaluation has come to an end. -/
  | resolved
  /-- A result has been put on it. -/
  | result
deriving DecidableEq, Repr

def NoticeKind.name : NoticeKind → String
  | .resolved => "resolved"
  | .result => "computation_result"

structure Notice where
  origin : ScopeId
  kind : NoticeKind
deriving DecidableEq, Repr

/-- A notice as a handler gets it. -/
structure Delivery where
  token : Nat
  notice : Notice
  /-- The scope on which the handler is registered. -/
  scope : ScopeId
deriving DecidableEq, Repr

structure Handler where
  token : Nat
  scope : ScopeId
deriving DecidableEq, Repr

structure HandlerTable where
  /-- The handlers, those of one scope in the order in which they came to it. -/
  handlers : List Handler
  /-- The number of tokens that have been given. -/
  issued : Nat
deriving DecidableEq, Repr

namespace HandlerTable

def empty : HandlerTable := ⟨[], 0⟩

def on (h : HandlerTable) (scope : ScopeId) : List Nat :=
  (h.handlers.filter (·.scope = scope)).map Handler.token

/-- Adds a handler and gives its token. -/
def register (h : HandlerTable) (scope : ScopeId) : Nat × HandlerTable :=
  (h.issued, ⟨h.handlers ++ [⟨h.issued, scope⟩], h.issued + 1⟩)

/-- Takes a handler away; the flag says whether it was there. -/
def unregister (h : HandlerTable) (token : Nat) : Bool × HandlerTable :=
  (h.handlers.any (·.token = token), { h with handlers := h.handlers.filter (·.token ≠ token) })

/-- Moves the handlers of a scope to another one, behind its own. -/
def transfer (h : HandlerTable) (source target : ScopeId) : HandlerTable :=
  { h with
    handlers := h.handlers.filter (·.scope ≠ source) ++
      (h.handlers.filter (·.scope = source)).map fun e => { e with scope := target } }

def dropScopes (h : HandlerTable) (scopes : List ScopeId) : HandlerTable :=
  { h with handlers := h.handlers.filter fun e => !scopes.contains e.scope }

end HandlerTable

end FormulaOutline
