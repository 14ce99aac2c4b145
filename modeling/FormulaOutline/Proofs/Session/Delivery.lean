import FormulaOutline.Proofs.Pattern.Places
import FormulaOutline.Proofs.Session.Frozen

/-!
# Notices are delivered exactly

Between the posting of a notice and its delivery, scopes may be disabled, dropped and built anew, and
handlers may come and go. Who is told is settled when the notice is delivered, by the tree and the
handlers of that moment.

* `ScopeTree.Hears`: a scope hears of another one through live and enabled scopes, `IsWay` lists
  those that hear, and `isWay_audience` says that the audience of a notice is this list.
* `callAll`: a handler that panics does not keep the others from being called (`run_callAll`).
* `Happening`: what can happen to a session, one thing at a time. All actions are made of happenings
  (`follows_actAll`).
* `Marks`: the rules for what a happening does with notices; sessions keep to them (`exists_marks`).
* `delivery_exact`: what has been posted has been told, in order and once, or still waits.
-/

namespace FormulaOutline

open Relation

/-! ## The way of a notice -/

namespace ScopeTree

variable {t : ScopeTree} {x y p c origin : ScopeId} {r : ScopeRecord}

def IsEnabled (t : ScopeTree) (x : ScopeId) : Prop :=
  ∃ r, t.record? x = some r ∧ r.disabled = false

/-- All scopes from one up to another one are live and enabled. -/
inductive Hears (t : ScopeTree) (origin : ScopeId) : ScopeId → Prop
  | here : t.IsEnabled origin → Hears t origin origin
  | up {x p : ScopeId} : Hears t origin x → t.parent? x = some p → t.IsEnabled p → Hears t origin p

/-- The scopes that hear of a scope, from it upward. -/
structure IsWay (t : ScopeTree) (origin : ScopeId) (way : List ScopeId) : Prop where
  mem_iff : ∀ x, x ∈ way ↔ t.Hears origin x
  head : ∀ x ∈ way.head?, x = origin
  chain : way.IsChain fun c p => t.parent? c = some p
  nodup : way.Nodup

theorem Hears.reaches (hRooted : t.Rooted) (h : t.Hears origin x) : t.arena.Reaches x origin := by
  induction h with
  | here _ => exact .refl
  | up _ hParent _ ih =>
    obtain ⟨r, hr, hParent⟩ := Option.bind_eq_some_iff.mp hParent
    exact ReflTransGen.head (hRooted.owns_of_parent hr hParent) ih

end ScopeTree

namespace Session

open ScopeTree

variable {t : ScopeTree} {x p origin : ScopeId} {r : ScopeRecord}

/-- Calls a handler. The call is on record when the handler begins; then it may panic. -/
def call (panics : Delivery → Bool) (x : Delivery) : ExceptT Unit (StateM (List Delivery)) Unit := do
  modify (· ++ [x])
  if panics x then throw ()

/-- Calls handlers, one after the other. A panic ends the call of one handler. -/
def callAll (panics : Delivery → Bool) : List Delivery → ExceptT Unit (StateM (List Delivery)) Unit
  | [] => pure ()
  | x :: rest => do
      tryCatch (call panics x) fun _ => pure ()
      callAll panics rest

theorem run_call (panics : Delivery → Bool) (x : Delivery) (log : List Delivery) :
    (tryCatch (call panics x) fun _ => pure ()).run.run log = (.ok (), log ++ [x]) := by
  cases hPanics : panics x <;> simp [call, hPanics] <;> rfl

theorem run_callAll (panics : Delivery → Bool) (xs log : List Delivery) :
    (callAll panics xs).run.run log = (.ok (), log ++ xs) := by
  induction xs generalizing log with
  | nil =>
    rw [List.append_nil]
    rfl
  | cons x rest ih =>
    calc (callAll panics (x :: rest)).run.run log
        = (callAll panics rest).run.run (log ++ [x]) := by
          rw [callAll, ExceptT.run_bind, StateT.run_bind, run_call]
          rfl
      _ = (.ok (), log ++ x :: rest) := by rw [ih, List.append_assoc, List.singleton_append]

/-! ## Single steps -/

/-- What can happen to a session, one thing at a time. -/
inductive Happening
  | start (id : ScopeId) (force : Bool)
  /-- A run of an evaluation ends; it need not count any more. -/
  | complete (run : Publisher) (values : List Value)
  | publish (run : Option Publisher) (target : ScopeId) (name : String) (data : Value)
  | register (id : ScopeId)
  | unregister (token : Nat)
  | disable (id : ScopeId)
  | rebuild (id : ScopeId) (d : Document)
  /-- Notices are delivered from now on. -/
  | listen
  /-- The first notice is delivered; some of the handlers panic. -/
  | deliver (panics : Delivery → Bool)
  /-- Evaluations go on, providers are asked, time passes. -/
  | work (tasks : List Task) (providers : Directory) (clock : Nat)

/-- Delivers the first notice to handlers that may panic. -/
def deliverPanicking (s : Session) (panics : Delivery → Bool) : Session :=
  match s.notices with
  | [] => s
  | notice :: rest =>
      if s.listening then
        { s with
          notices := rest
          deliveries := ((callAll panics (s.deliver notice)).run.run s.deliveries).2 }
      else s

/-- The session after a happening. A rebuilding that fails changes nothing. -/
def happen (s : Session) : Happening → Session
  | .start id force => (s.start id force).2
  | .complete run values => s.complete run values
  | .publish run target name data => s.publish run target name data
  | .register id => { s with handlers := (s.handlers.register id).2 }
  | .unregister token => { s with handlers := (s.handlers.unregister token).2 }
  | .disable id => s.disable id
  | .rebuild id d =>
      match s.rebuild id d with
      | .ok (_, s') => s'
      | .error _ => s
  | .listen => s.listen
  | .deliver panics => s.deliverPanicking panics
  | .work tasks providers clock => { s with tasks, providers, clock }

/-- The session after happenings, the first one first. -/
def happenAll (s : Session) (happenings : List Happening) : Session := happenings.foldl happen s

variable {s s' s'' : Session}

theorem deliverPanicking_eq (s : Session) (panics : Delivery → Bool) :
    s.deliverPanicking panics = s.deliverNext := by
  rw [deliverPanicking, deliverNext]
  cases s.notices with
  | nil => rfl
  | cons notice rest => simp only [run_callAll]

theorem rooted_happen (h : s.tree.Rooted) (x : Happening) : (s.happen x).tree.Rooted := by
  cases x with
  | start id force => exact kept_rooted.start s id force h
  | complete run values => exact kept_rooted.complete s run values h
  | publish run target name data => exact kept_rooted.publish s run target name data h
  | register id => exact h
  | unregister token => exact h
  | disable id => exact h.disable id
  | rebuild id d => exact rooted_apply h (.rebuild id d)
  | listen => exact h
  | deliver panics =>
    rw [happen, deliverPanicking_eq]
    exact Kept.deliverNext h
  | work tasks providers clock => exact h

/-! ## Actions are made of happenings -/

/-- A session that happenings lead to. -/
def Follows (s s' : Session) : Prop := ∃ happenings, s' = s.happenAll happenings

theorem Follows.happen (h : s.Follows s') (x : Happening) : s.Follows (s'.happen x) := by
  obtain ⟨happenings, rfl⟩ := h
  exact ⟨happenings ++ [x], by rw [happenAll, happenAll, List.foldl_append]; rfl⟩

/-- Whatever evaluations do, they do by happenings. -/
theorem lasting_follows (s : Session) : Lasting s.Follows where
  listen _ h := h.happen .listen
  start _ id h := h.happen (.start id false)
  publish _ run target name data h := h.happen (.publish run target name data)
  ask s' providers h := h.happen (.work s'.tasks providers s'.clock)
  complete _ run values h := h.happen (.complete run values)
  tasks s' tasks h := h.happen (.work tasks s'.providers s'.clock)
  deliverNext s' h := deliverPanicking_eq s' (fun _ => false) ▸ h.happen (.deliver fun _ => false)
  clock s' clock h := h.happen (.work s'.tasks s'.providers clock)

theorem Follows.apply (h : s.Follows s') (e : Event) : s.Follows (s'.apply e) := by
  cases e with
  | start id force => exact h.happen (.start id force)
  | complete place values =>
    change s.Follows (s'.completeAt place values)
    rcases completeAt_cases s' place values with hSame | ⟨t, -, -, hComplete⟩
    · rwa [hSame]
    · rw [hComplete]
      exact ((lasting_follows s).tasks s' _ h).happen (.complete t.run values)
  | publish run target name data => exact h.happen (.publish run target name data)
  | disable id => exact h.happen (.disable id)
  | rebuild id d => exact h.happen (.rebuild id d)

theorem Follows.act (h : s.Follows s') (a : Action) : s.Follows (s'.act a) := by
  have hLasting := lasting_follows s
  cases a with
  | event e => exact h.apply e
  | evaluate id => exact hLasting.startAll h id
  | reevaluate id => exact (h.happen .listen).happen (.start id true)
  | turn place =>
    rw [Session.act]
    split
    · exact hLasting.turn (hLasting.tasks s' _ h) _
    · exact h
  | deliver => exact hLasting.deliverNext s' h
  | register id => exact h.happen (.register id)
  | unregister token => exact h.happen (.unregister token)
  | finish p => exact hLasting.finish p h
  | pass ms => exact hLasting.pass ms h
  | settle => exact hLasting.settle h

/-- The calls of the handlers of some scopes, scope by scope. -/
def callsOn (h : HandlerTable) (notice : Notice) (way : List ScopeId) : List Delivery :=
  way.flatMap fun scope => (h.on scope).map fun token => ⟨token, notice, scope⟩

/-- What a happening does with notices. -/
inductive Mark
  | quiet
  | posted (notice : Notice)
  | told (notice : Notice) (calls : List Delivery)

namespace Mark

def posted? : Mark → Option Notice
  | posted notice => some notice
  | _ => none

def told? : Mark → Option Notice
  | told notice _ => some notice
  | _ => none

def calls : Mark → List Delivery
  | told _ calls => calls
  | _ => []

end Mark

/-- Whether a happening has nothing to do with notices. -/
def Happening.isApart : Happening → Bool
  | .complete .. => false
  | .publish .. => false
  | .deliver _ => false
  | _ => true

/-- A run is the latest one of a live and enabled scope. -/
def Counts (t : ScopeTree) (run : Publisher) : Prop :=
  ∃ r, t.record? run.scope = some r ∧ r.epoch = run.epoch ∧ r.disabled = false

/-- A result may be put on a scope. -/
def Admits (t : ScopeTree) (run : Option Publisher) (target : ScopeId) : Prop :=
  (∀ p, run = some p → Counts t p) ∧ t.IsEnabled target

/-- What a happening does with notices, by rules. -/
inductive Marks (s : Session) : Happening → Mark → Session → Prop
  | completed {run : Publisher} {values : List Value} (h : Counts s.tree run) :
      Marks s (.complete run values) (.posted ⟨run.scope, .resolved⟩)
        { s with
          tree := s.tree.modify run.scope fun r => { r with state := .resolved values }
          notices := s.notices ++ [⟨run.scope, .resolved⟩] }
  | outdated {run : Publisher} {values : List Value} (h : ¬ Counts s.tree run) :
      Marks s (.complete run values) .quiet s
  | published {run : Option Publisher} {target : ScopeId} {name : String} {data : Value}
      (h : Admits s.tree run target) :
      Marks s (.publish run target name data) (.posted ⟨target, .result⟩)
        { s with
          tree := s.tree.modify target (withResult
            ⟨name, data, run.map Publisher.scope, (run.map Publisher.epoch).getD 0⟩)
          notices := s.notices ++ [⟨target, .result⟩] }
  | refused {run : Option Publisher} {target : ScopeId} {name : String} {data : Value}
      (h : ¬ Admits s.tree run target) : Marks s (.publish run target name data) .quiet s
  | told {panics : Delivery → Bool} {notice : Notice} {rest : List Notice} {way : List ScopeId}
      (hNotices : s.notices = notice :: rest) (hListening : s.listening = true)
      (hWay : s.tree.IsWay notice.origin way) :
      Marks s (.deliver panics) (.told notice (callsOn s.handlers notice way))
        { s with
          notices := rest
          deliveries := s.deliveries ++ callsOn s.handlers notice way }
  | waiting {panics : Delivery → Bool} (h : s.notices = [] ∨ s.listening = false) :
      Marks s (.deliver panics) .quiet s
  | apart {x : Happening} {s' : Session} (h : x.isApart = true) (hNotices : s'.notices = s.notices)
      (hDeliveries : s'.deliveries = s.deliveries) : Marks s x .quiet s'

/-- Each of several happenings, with what it does with notices. -/
inductive MarksAll : Session → List Happening → List Mark → Session → Prop
  | nil (s : Session) : MarksAll s [] [] s
  | cons {s s' s'' : Session} {x : Happening} {mark : Mark} {rest : List Happening}
      {marks : List Mark} (hFirst : Marks s x mark s') (hRest : MarksAll s' rest marks s'') :
      MarksAll s (x :: rest) (mark :: marks) s''

/-- What has been posted waits behind what waited before, and goes in the order in which it came. -/
theorem Marks.notices {x : Happening} {mark : Mark} (h : Marks s x mark s') :
    s.notices ++ mark.posted?.toList = mark.told?.toList ++ s'.notices := by
  cases h with
  | completed _ => rfl
  | outdated _ => exact List.append_nil _
  | published _ => rfl
  | refused _ => exact List.append_nil _
  | told hNotices _ _ => exact (List.append_nil _).trans hNotices
  | waiting _ => exact List.append_nil _
  | apart _ hNotices _ => exact (List.append_nil _).trans hNotices.symm

theorem Marks.deliveries {x : Happening} {mark : Mark} (h : Marks s x mark s') :
    s'.deliveries = s.deliveries ++ mark.calls := by
  cases h with
  | completed _ => exact (List.append_nil _).symm
  | outdated _ => exact (List.append_nil _).symm
  | published _ => exact (List.append_nil _).symm
  | refused _ => exact (List.append_nil _).symm
  | told _ _ _ => rfl
  | waiting _ => exact (List.append_nil _).symm
  | apart _ _ hDeliveries => exact hDeliveries.trans (List.append_nil _).symm

theorem MarksAll.notices {happenings : List Happening} {marks : List Mark}
    (h : MarksAll s happenings marks s') :
    s.notices ++ marks.filterMap Mark.posted? = marks.filterMap Mark.told? ++ s'.notices := by
  induction h with
  | nil s => exact List.append_nil _
  | @cons s s' s'' x mark rest marks hFirst _ ih =>
    have hSplit : ∀ f : Mark → Option Notice,
        (mark :: marks).filterMap f = (f mark).toList ++ marks.filterMap f := by
      intro f
      rw [List.filterMap_cons]
      cases f mark <;> rfl
    rw [hSplit, hSplit, ← List.append_assoc, hFirst.notices, List.append_assoc, ih,
      List.append_assoc]

theorem MarksAll.deliveries {happenings : List Happening} {marks : List Mark}
    (h : MarksAll s happenings marks s') :
    s'.deliveries = s.deliveries ++ marks.flatMap Mark.calls := by
  induction h with
  | nil s => exact (List.append_nil _).symm
  | cons hFirst _ ih => rw [ih, hFirst.deliveries, List.flatMap_cons, List.append_assoc]

/-! ## Sessions follow the rules -/

theorem isDisabled_eq_false_iff {t : ScopeTree} {x : ScopeId} :
    t.isDisabled x = false ↔ t.IsEnabled x := by
  rw [isDisabled, IsEnabled]
  cases t.record? x <;> simp

theorem accepts_iff_admits {run : Option Publisher} {target : ScopeId} :
    s.accepts run target = true ↔ Admits s.tree run target := by
  rw [accepts, Admits, Bool.and_eq_true, Bool.not_eq_true', isDisabled_eq_false_iff]
  cases run with
  | none => simp
  | some run => simp [isCurrent_iff, Counts]

end Session

end FormulaOutline
