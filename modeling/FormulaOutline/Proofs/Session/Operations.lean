import FormulaOutline.Proofs.Scope.Aging
import FormulaOutline.Session.Run
import Mathlib.Logic.Function.Iterate

/-!
# What the operations of a session do to its tree

* `start_cases`, `complete_cases`, `publish_cases`: an operation changes one record or nothing.
* `startEach_eq`: of several scopes the evaluations are started that are waiting for it.
* `deliverNext`: one delivery; all of them are made one after the other (`dispatch_eq_iterate`).
* `Carried`: a property of sessions that nothing breaks that a process does by itself, so that no
  process breaks it (`Carried.poll`).
* `Lasting`: nor does an evaluation that ends, a delivery or time that passes, so that no run of the
  evaluations under way breaks it (`Lasting.settle`).
* `Kept`: a property of trees that no such change breaks.
* `Event`: what can happen to a session, in any order.
* `Reachable`: the sessions that events and runs of the evaluations under way lead to.
* `reachable_wellFormed`: the tree of every session that is reached from the tree of a document is
  well formed.
-/

namespace FormulaOutline.Session

variable {s : Session} {id : ScopeId}

/-! ## Single operations -/

/-- Starting an evaluation adds it to those under way, or does nothing. -/
theorem start_cases (s : Session) (id : ScopeId) (force : Bool) : (s.start id force).2 = s ∨
    ∃ r, s.tree.record? id = some r ∧ r.disabled = false ∧ (r.state.isIdle = true ∨ force = true) ∧
      (s.start id force).2 =
        { s with
          tree := s.tree.modify id begun
          tasks := s.tasks ++ [⟨⟨id, r.epoch + 1⟩, partsOf s.functions id r⟩] } := by
  unfold start
  cases hr : s.tree.record? id with
  | none => exact Or.inl rfl
  | some r =>
    cases hd : r.disabled with
    | true => exact Or.inl (by simp [hd])
    | false =>
      cases hi : r.state.isIdle with
      | true => exact Or.inr ⟨r, rfl, hd, Or.inl hi, by simp [hd, hi]⟩
      | false =>
        cases force with
        | false => exact Or.inl (by simp [hd, hi])
        | true => exact Or.inr ⟨r, rfl, hd, Or.inr rfl, by simp [hd, hi]⟩

theorem isCurrent_iff {run : Publisher} : s.isCurrent run = true ↔
    ∃ r, s.tree.record? run.scope = some r ∧ r.epoch = run.epoch ∧ r.disabled = false := by
  unfold isCurrent
  cases hr : s.tree.record? run.scope with
  | none => simp
  | some r => simp

/-- Only a current run stores its values, and only on its own scope. -/
theorem complete_cases (s : Session) (run : Publisher) (values : List Value) :
    (s.isCurrent run = false ∧ s.complete run values = s) ∨
    (s.isCurrent run = true ∧ (s.complete run values).tree =
        s.tree.modify run.scope (fun r => { r with state := .resolved values }) ∧
      (s.complete run values).tasks = s.tasks ∧
      (s.complete run values).functions = s.functions) := by
  unfold complete
  cases h : s.isCurrent run with
  | false => exact Or.inl ⟨rfl, rfl⟩
  | true => exact Or.inr ⟨rfl, rfl, rfl, rfl⟩

/-- The record of a scope on which a result has been put. -/
def withResult (result : ComputationResult) (r : ScopeRecord) : ScopeRecord :=
  { r with results := ScopeRecord.insertResult result r.results }

/-- Only a current run, or someone outside, puts a result on a scope. -/
theorem publish_cases (s : Session) (run : Option Publisher) (target : ScopeId) (name : String)
    (data : Value) :
    (s.accepts run target = false ∧ s.publish run target name data = s) ∨
    ∃ result, s.accepts run target = true ∧
      (s.publish run target name data).tree = s.tree.modify target (withResult result) ∧
      (s.publish run target name data).tasks = s.tasks ∧
      (s.publish run target name data).functions = s.functions := by
  unfold publish
  cases h : s.accepts run target with
  | false => exact Or.inl ⟨rfl, rfl⟩
  | true => exact Or.inr ⟨_, rfl, rfl, rfl, rfl⟩

theorem rebuild_cases {d : Document} {new : ScopeId} {s' : Session}
    (h : s.rebuild id d = .ok (new, s')) :
    ∃ gone, s.tree.rebuild id d = .ok (new, gone, s'.tree) ∧ s'.tasks = s.tasks := by
  unfold rebuild at h
  cases hr : s.tree.rebuild id d with
  | error e =>
    rw [hr] at h
    cases h
  | ok result =>
    obtain ⟨new', gone, tree⟩ := result
    rw [hr] at h
    cases h
    exact ⟨gone, rfl, rfl⟩

/-! ## Starting several evaluations -/

section Starting

open ScopeTree

variable {x y : ScopeId} {ids : List ScopeId}

/-- Whether a scope is enabled and its evaluation has not been started. -/
def waits (s : Session) (x : ScopeId) : Bool :=
  match s.tree.record? x with
  | none => false
  | some r => !r.disabled && r.state.isIdle

theorem waits_iff : s.waits x = true ↔
    ∃ r, s.tree.record? x = some r ∧ r.disabled = false ∧ r.state = .idle := by
  rw [waits]
  cases hr : s.tree.record? x with
  | none => simp
  | some r => cases hState : r.state <;> simp [EvalState.isIdle, hState]

/-- The evaluation of a scope that is started next. -/
def nextTask (s : Session) (x : ScopeId) : Task :=
  ⟨⟨x, ((s.tree.record? x).map ScopeRecord.epoch).getD 0 + 1⟩,
    ((s.tree.record? x).map (partsOf s.functions x)).getD []⟩

/-- The session after the start of some evaluations. -/
def started (s : Session) (ids : List ScopeId) : Session :=
  { s with tree := s.tree.modifyAll ids begun, tasks := s.tasks ++ ids.map s.nextTask }

theorem started_nil (s : Session) : s.started [] = s := by
  rw [started, List.map_nil, List.append_nil]
  rfl

theorem start_of_waits (h : s.waits x = true) : (s.start x false).2 = s.started [x] := by
  obtain ⟨r, hr, hDisabled, hState⟩ := waits_iff.mp h
  have hIdle : r.state.isIdle = true := by rw [hState]; rfl
  simp [start, started, nextTask, modifyAll, hr, hDisabled, hIdle]

theorem start_of_not_waits (h : s.waits x = false) : (s.start x false).2 = s := by
  rcases start_cases s x false with hSame | ⟨r, hr, hDisabled, hIdle, -⟩
  · exact hSame
  · have hIdle := hIdle.resolve_right Bool.false_ne_true
    simp [waits, hr, hDisabled, hIdle] at h

theorem record?_started_singleton (hne : y ≠ x) :
    (s.started [x]).tree.record? y = s.tree.record? y := by
  rw [started]
  exact (record?_modify begun).trans (if_neg hne)

/-- Of some scopes the evaluations are started that are waiting for it, one for each of them. -/
theorem startEach_eq (hNodup : ids.Nodup) :
    ids.foldl (fun s x => (s.start x false).2) s = s.started (ids.filter s.waits) := by
  induction ids generalizing s with
  | nil => exact s.started_nil.symm
  | cons x rest ih =>
    rw [List.nodup_cons] at hNodup
    rw [List.foldl_cons, ih hNodup.2]
    cases hWaits : s.waits x with
    | false => rw [start_of_not_waits hWaits, List.filter_cons_of_neg (by simp [hWaits])]
    | true =>
      have hOther : ∀ y ∈ rest, (s.started [x]).tree.record? y = s.tree.record? y := fun y hy =>
        record?_started_singleton fun hEq => hNodup.1 (hEq ▸ hy)
      have hFilter : rest.filter (s.started [x]).waits = rest.filter s.waits :=
        List.filter_congr fun y hy => by rw [waits, waits, hOther y hy]
      have hTasks : (rest.filter s.waits).map (s.started [x]).nextTask =
          (rest.filter s.waits).map s.nextTask :=
        List.map_congr_left fun y hy => by
          rw [nextTask, nextTask, hOther y (List.mem_filter.mp hy).1]
          rfl
      rw [start_of_waits hWaits, hFilter, List.filter_cons_of_pos hWaits, started, hTasks]
      simp only [started, List.map_cons, List.map_nil, List.append_assoc, List.cons_append,
        List.nil_append]
      rfl

end Starting

/-! ## One delivery -/

/-- Delivers the first notice. -/
def deliverNext (s : Session) : Session :=
  match s.notices with
  | [] => s
  | notice :: rest =>
      if s.listening then
        { s with notices := rest, deliveries := s.deliveries ++ s.deliver notice }
      else s

theorem deliverNext_cases (s : Session) : s.deliverNext = s ∨
    ∃ notice rest, s.notices = notice :: rest ∧ s.listening = true ∧ s.deliverNext =
      { s with notices := rest, deliveries := s.deliveries ++ s.deliver notice } := by
  rw [deliverNext]
  cases hNotices : s.notices with
  | nil => exact Or.inl rfl
  | cons notice rest =>
    cases hListening : s.listening with
    | false => exact Or.inl rfl
    | true => exact Or.inr ⟨notice, rest, rfl, rfl, rfl⟩

theorem iterate_deliverNext (hListening : s.listening = true) {notices : List Notice}
    (hNotices : s.notices = notices) : deliverNext^[notices.length] s =
      { s with notices := [], deliveries := s.deliveries ++ notices.flatMap s.deliver } := by
  induction notices generalizing s with
  | nil =>
    cases s
    simp_all
  | cons notice rest ih =>
    have hNext : s.deliverNext =
        { s with notices := rest, deliveries := s.deliveries ++ s.deliver notice } := by
      simp [deliverNext, hNotices, hListening]
    have hRest := ih (s := s.deliverNext) (hNext ▸ hListening) (by rw [hNext])
    rw [List.length_cons, Function.iterate_succ_apply, hRest, hNext]
    simp only [List.flatMap_cons, List.append_assoc]
    rfl

/-- All notices are delivered by delivering one after the other. -/
theorem dispatch_eq_iterate (s : Session) : s.dispatch = deliverNext^[s.notices.length] s := by
  cases hListening : s.listening with
  | true => rw [iterate_deliverNext hListening rfl, dispatch, if_pos hListening]
  | false =>
    have hFixed : s.deliverNext = s := by
      rw [deliverNext]
      cases s.notices with
      | nil => rfl
      | cons notice rest => simp [hListening]
    rw [Function.iterate_fixed hFixed, dispatch, hListening]
    rfl

/-! ## Properties that processes keep -/

/-- A property of sessions that holds on when an evaluation is started, a result is put on a scope or
a provider is asked. -/
structure Carried (P : Session → Prop) : Prop where
  listen : ∀ s : Session, P s → P s.listen
  start : ∀ (s : Session) (id : ScopeId), P s → P (s.start id false).2
  publish : ∀ (s : Session) (run : Option Publisher) (target : ScopeId) (name : String)
    (data : Value), P s → P (s.publish run target name data)
  ask : ∀ (s : Session) (providers : Directory), P s → P { s with providers }

namespace Carried

variable {P : Session → Prop}

theorem beginWait (hP : Carried P) {s : Session} (h : P s) (id : ScopeId) : P (s.beginWait id) :=
  hP.start _ id (hP.listen s h)

mutual

/-- A process does no more than starting evaluations, putting results on scopes and asking
providers. -/
theorem poll (hP : Carried P) (run : Option Publisher) : (p : Process) → (s : Session) → P s →
    P (Session.poll run p s).2
  | .done v, s, h => by
    rw [Session.poll]
    exact h
  | .look next, s, h => by
    rw [Session.poll]
    exact hP.poll run (next s.tree) s h
  | .await id next, s, h => by
    rw [Session.poll]
    split
    · exact hP.poll run _ s h
    · split
      · exact hP.poll run _ s h
      · split
        · exact hP.poll run _ _ (hP.beginWait h id)
        · exact hP.beginWait h id
  | .waiting id deadline next, s, h => by
    rw [Session.poll]
    split
    · exact hP.poll run _ s h
    · split
      · exact h
      · exact hP.poll run _ s h
  | .sleep ms next, s, h => by
    rw [Session.poll]
    split
    · exact hP.poll run next s h
    · exact h
  | .sleeping deadline next, s, h => by
    rw [Session.poll]
    split
    · exact hP.poll run next s h
    · exact h
  | .publish target name data next, s, h => by
    rw [Session.poll]
    exact hP.poll run next _ (hP.publish s run target name data h)
  | .consult query next, s, h => by
    rw [Session.poll]
    exact hP.poll run (next (s.providers.ask s.moment query).1) _ (hP.ask s _ h)
  | .gather parts next, s, h => by
    have hparts := hP.pollAll run parts s h
    rw [Session.poll]
    simp only
    split
    · exact hP.poll run _ _ hparts
    · exact hparts

theorem pollAll (hP : Carried P) (run : Option Publisher) : (ps : List Process) →
    (s : Session) → P s → P (Session.pollAll run ps s).2
  | [], s, h => by
    rw [Session.pollAll]
    exact h
  | p :: rest, s, h => by
    rw [Session.pollAll]
    exact hP.pollAll run rest _ (hP.poll run p s h)

end

theorem startAll (hP : Carried P) (h : P s) (id : ScopeId) : P (s.startAll id) := by
  unfold Session.startAll
  generalize s.tree.owned id = ids
  have hlisten : P s.listen := hP.listen s h
  generalize s.listen = s' at hlisten
  induction ids generalizing s' with
  | nil => exact hlisten
  | cons id rest ih => exact ih _ (hP.start s' id hlisten)

end Carried

/-! ## Properties that evaluation keeps -/

/-- A property of sessions that holds on also when an evaluation ends, whatever evaluations are under
way, when notices are delivered and when time passes. -/
structure Lasting (P : Session → Prop) : Prop extends Carried P where
  complete : ∀ (s : Session) (run : Publisher) (values : List Value), P s →
    P (s.complete run values)
  tasks : ∀ (s : Session) (tasks : List Task), P s → P { s with tasks }
  deliverNext : ∀ s : Session, P s → P s.deliverNext
  clock : ∀ (s : Session) (clock : Nat), P s → P { s with clock }

namespace Lasting

variable {P : Session → Prop} (hP : Lasting P)
include hP

theorem dispatch (h : P s) : P s.dispatch := by
  rw [dispatch_eq_iterate]
  induction s.notices.length with
  | zero => exact h
  | succ n ih =>
    rw [Function.iterate_succ_apply']
    exact hP.deliverNext _ ih

theorem turn (h : P s) (t : Task) : P (s.turn t) := by
  have hparts := hP.pollAll (some t.run) t.parts s h
  unfold Session.turn
  simp only
  split
  · exact hP.complete _ t.run _ hparts
  · exact hP.tasks _ _ hparts

theorem round (h : P s) : P s.round := by
  unfold Session.round
  have h' : P { s with tasks := [] } := hP.tasks s [] h
  generalize ({ s with tasks := [] } : Session) = s' at h'
  induction s.tasks generalizing s' with
  | nil => exact h'
  | cons t rest ih => exact ih _ (hP.turn h' t)

theorem roundsWithin (fuel : Nat) (h : P s) : P (roundsWithin fuel s) := by
  induction fuel generalizing s with
  | zero => exact h
  | succ fuel ih =>
    rw [Session.roundsWithin]
    split
    · exact ih (hP.round h)
    · exact hP.round h

theorem goOn (h : P s) : P s.goOn := hP.dispatch (hP.roundsWithin _ h)

theorem finishWithin (fuel : Nat) (p : Process) (h : P s) : P (finishWithin fuel p s).2 := by
  induction fuel generalizing p s with
  | zero => exact h
  | succ fuel ih =>
    have hp := hP.poll none p s h
    have hnext := hP.goOn hp
    rw [Session.finishWithin]
    simp only
    split
    · exact hp
    · split
      · exact ih _ hnext
      · split
        · exact ih _ (hP.clock _ _ hnext)
        · exact hnext

theorem finish (p : Process) (h : P s) : P (s.finish p).2 := hP.finishWithin _ p h

theorem pass (ms : Nat) (h : P s) : P (s.pass ms) := hP.goOn (hP.finish _ (hP.goOn h))

theorem awaitEach (ids : List ScopeId) (h : P s) : P (s.awaitEach ids).2 := by
  induction ids generalizing s with
  | nil => exact h
  | cons id rest ih => exact ih (hP.finish _ h)

theorem settleWithin (fuel : Nat) (h : P s) : P (settleWithin fuel s) := by
  induction fuel generalizing s with
  | zero => exact h
  | succ fuel ih =>
    rw [Session.settleWithin]
    split
    · exact hP.goOn h
    · have hp := hP.awaitEach s.unresolved h
      simp only
      split
      · exact ih hp
      · exact hP.goOn hp

theorem settle (h : P s) : P s.settle := hP.settleWithin _ h

end Lasting

/-! ## Properties of trees -/

/-- A property of trees that holds on when an evaluation starts or ends or puts a result on a
scope. -/
structure Kept (P : ScopeTree → Prop) : Prop where
  start : ∀ (s : Session) (id : ScopeId) (force : Bool), P s.tree → P (s.start id force).2.tree
  complete : ∀ (s : Session) (run : Publisher) (values : List Value), P s.tree →
    P (s.complete run values).tree
  publish : ∀ (s : Session) (run : Option Publisher) (target : ScopeId) (name : String)
    (data : Value), P s.tree → P (s.publish run target name data).tree

namespace Kept

variable {P : ScopeTree → Prop}

theorem dispatch (h : P s.tree) : P s.dispatch.tree := by
  unfold Session.dispatch
  split <;> exact h

theorem deliverNext (h : P s.tree) : P s.deliverNext.tree := by
  rcases deliverNext_cases s with hSame | ⟨notice, rest, -, -, hNext⟩
  · rwa [hSame]
  · rwa [hNext]

variable (hP : Kept P)
include hP

theorem lasting : Lasting fun s => P s.tree where
  listen := fun _ h => h
  start := fun s id h => hP.start s id false h
  publish := hP.publish
  ask := fun _ _ h => h
  complete := hP.complete
  tasks := fun _ _ h => h
  deliverNext := fun _ h => deliverNext h
  clock := fun _ _ h => h

theorem startAll (h : P s.tree) (id : ScopeId) : P (s.startAll id).tree :=
  hP.lasting.startAll h id

theorem restart (h : P s.tree) (id : ScopeId) : P (s.restart id).2.tree :=
  hP.start s.listen id true h

theorem turn (h : P s.tree) (t : Task) : P (s.turn t).tree := hP.lasting.turn h t

theorem finish (p : Process) (h : P s.tree) : P (s.finish p).2.tree := hP.lasting.finish p h

theorem pass (ms : Nat) (h : P s.tree) : P (s.pass ms).tree := hP.lasting.pass ms h

theorem settle (h : P s.tree) : P s.settle.tree := hP.lasting.settle h

end Kept

end FormulaOutline.Session

namespace FormulaOutline.Session

/-! ## Events -/

/-- What can happen to a session. -/
inductive Event
  | start (id : ScopeId) (force : Bool)
  /-- The evaluation at a place among those under way ends, with a value for each of its parts. -/
  | complete (place : Nat) (values : List Value)
  /-- A run, or someone outside, puts a result on a scope. -/
  | publish (run : Option Publisher) (target : ScopeId) (name : String) (data : Value)
  | disable (id : ScopeId)
  | rebuild (id : ScopeId) (d : Document)

/-- Ends the evaluation at a place, if there is one with as many parts as there are values. -/
def completeAt (s : Session) (place : Nat) (values : List Value) : Session :=
  match s.tasks[place]? with
  | none => s
  | some t =>
      if values.length = t.parts.length then
        ({ s with tasks := s.tasks.eraseIdx place }).complete t.run values
      else s

/-- The session after an event. A rebuilding that fails changes nothing. -/
def apply (s : Session) : Event → Session
  | .start id force => (s.start id force).2
  | .complete place values => s.completeAt place values
  | .publish run target name data => s.publish run target name data
  | .disable id => s.disable id
  | .rebuild id d =>
      match s.rebuild id d with
      | .ok (_, s') => s'
      | .error _ => s

/-- The session after events, the first one first. -/
def run (s : Session) (events : List Event) : Session := events.foldl apply s

/-- The sessions that a session comes to by events, by asking for evaluations and by running them,
in any order. -/
inductive Reachable (first : Session) : Session → Prop
  | refl : Reachable first first
  | apply {s : Session} (e : Event) : Reachable first s → Reachable first (s.apply e)
  | evaluate {s : Session} (id : ScopeId) : Reachable first s → Reachable first (s.startAll id)
  | reevaluate {s : Session} (id : ScopeId) : Reachable first s → Reachable first (s.restart id).2
  | turn {s : Session} (t : Task) : Reachable first s → Reachable first (s.turn t)
  | dispatch {s : Session} : Reachable first s → Reachable first s.dispatch
  | finish {s : Session} (p : Process) : Reachable first s → Reachable first (s.finish p).2
  | pass {s : Session} (ms : Nat) : Reachable first s → Reachable first (s.pass ms)
  | settle {s : Session} : Reachable first s → Reachable first s.settle

theorem Reachable.run {first s : Session} (h : Reachable first s) (events : List Event) :
    Reachable first (s.run events) := by
  induction events generalizing s with
  | nil => exact h
  | cons e rest ih => exact ih (h.apply e)

/-! ## Trees stay rooted -/

theorem kept_rooted : Kept ScopeTree.Rooted where
  start := by
    intro s id force h
    rcases start_cases s id force with he | ⟨r, -, -, -, he⟩ <;> rw [he]
    · exact h
    · exact h.modify id fun r => rfl
  complete := by
    intro s run values h
    rcases complete_cases s run values with ⟨-, he⟩ | ⟨-, he, -⟩ <;> rw [he]
    · exact h
    · exact h.modify run.scope fun r => rfl
  publish := by
    intro s run target name data h
    rcases publish_cases s run target name data with ⟨-, he⟩ | ⟨result, -, he, -⟩ <;> rw [he]
    · exact h
    · exact h.modify target fun r => rfl

theorem completeAt_cases (s : Session) (place : Nat) (values : List Value) :
    s.completeAt place values = s ∨
    ∃ t, s.tasks[place]? = some t ∧ values.length = t.parts.length ∧
      s.completeAt place values =
        ({ s with tasks := s.tasks.eraseIdx place }).complete t.run values := by
  unfold completeAt
  split
  · exact Or.inl rfl
  · rename_i t ht
    split
    · rename_i hlen
      exact Or.inr ⟨t, ht, hlen, rfl⟩
    · exact Or.inl rfl

theorem rooted_apply {s : Session} (h : s.tree.Rooted) (e : Event) : (s.apply e).tree.Rooted := by
  cases e with
  | start id force => exact kept_rooted.start s id force h
  | complete place values =>
    show (s.completeAt place values).tree.Rooted
    rcases completeAt_cases s place values with he | ⟨t, -, -, he⟩ <;> rw [he]
    · exact h
    · exact kept_rooted.complete _ t.run values h
  | publish run target name data => exact kept_rooted.publish s run target name data h
  | disable id => exact h.disable id
  | rebuild id d =>
    rw [apply]
    split
    · rename_i hs
      obtain ⟨gone, hrebuild, -⟩ := rebuild_cases hs
      exact h.rebuild hrebuild
    · exact h

theorem Reachable.rooted {first s : Session} (h : Reachable first s) (hfirst : first.tree.Rooted) :
    s.tree.Rooted := by
  induction h with
  | refl => exact hfirst
  | apply e _ ih => exact rooted_apply ih e
  | evaluate id _ ih => exact kept_rooted.startAll ih id
  | reevaluate id _ ih => exact kept_rooted.restart ih id
  | turn t _ ih => exact kept_rooted.turn ih t
  | dispatch _ ih => exact Kept.dispatch ih
  | finish p _ ih => exact kept_rooted.finish p ih
  | pass ms _ ih => exact kept_rooted.pass ms ih
  | settle _ ih => exact kept_rooted.settle ih

/-- Whatever happens to the tree of a document, and in whatever order, it stays well formed. -/
theorem reachable_wellFormed (d : Document) (functions : Registry) (config : EngineConfig)
    (providers : Directory) {s : Session}
    (h : Reachable (ofTree (.build d) functions config providers) s) : s.tree.WellFormed :=
  (h.rooted (ScopeTree.rooted_build d)).wellFormed

/-- A document whose only node is evaluated and then rebuilt twice, the second time through an id
that is gone. -/
theorem reachable_wellFormed_rebuilt :
    ((((ofTree (.build .empty) [] .default .empty).startAll ⟨0, 0⟩).run
      [.complete 0 [],
        .rebuild ⟨0, 0⟩ ⟨"root", [⟨"root", "\x7b#[a]\x7d", ["a"]⟩, ⟨"a", "key: 1", []⟩], 2⟩,
        .disable ⟨2, 0⟩, .rebuild ⟨0, 0⟩ .empty,
        .rebuild ⟨2, 0⟩ .empty]).restart ⟨1, 0⟩).2.settle.tree.WellFormed :=
  reachable_wellFormed .empty [] .default .empty
    (((Reachable.refl.evaluate _).run _).reevaluate _).settle

end FormulaOutline.Session
