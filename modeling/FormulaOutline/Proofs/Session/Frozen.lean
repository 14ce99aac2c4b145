import FormulaOutline.Proofs.Scope.Shapes
import FormulaOutline.Proofs.Session.Disabled
import FormulaOutline.Proofs.Session.Operations

/-!
# Disabled scopes are frozen

When a scope is disabled, evaluations of what it owns may be under way, results may be about to be put
there, and notices may wait to be delivered. All of that comes to nothing, in whatever order it comes.

* `Action`: what can be done to a session, one thing at a time; `actAll` does several.
* `audience_of_disabled`, `enabled_of_mem_audience`: the way of a notice ends before a disabled scope.
* `Frozen`: a scope is disabled, with the state and the results that it had, and no delivery comes from
  it or goes to a handler on it. Evaluation keeps this (`lasting_frozen`), and every action does as
  long as the scope is live (`Frozen.act`): a rebuilding drops the scope or leaves it as it is.
* `disable_freezes`: what follows for all that a disabled scope owns.
-/

namespace FormulaOutline.Session

open ScopeTree

variable {s s' : Session} {d id : ScopeId} {r was : ScopeRecord} {told : List Delivery}

/-! ## Actions -/

/-- What can be done to a session. A notice goes to all its handlers in one action: handlers listen, and
what they want done is done after it. -/
inductive Action
  | event (e : Event)
  | evaluate (id : ScopeId)
  | reevaluate (id : ScopeId)
  /-- The evaluation at a place among those under way goes on until it has to wait. -/
  | turn (place : Nat)
  /-- The first notice is delivered. -/
  | deliver
  | register (id : ScopeId)
  | unregister (token : Nat)
  /-- A process outside runs to its end, with the evaluations beside it. -/
  | finish (p : Process)
  | pass (ms : Nat)
  | settle

/-- The session after an action. -/
def act (s : Session) : Action → Session
  | .event e => s.apply e
  | .evaluate id => s.startAll id
  | .reevaluate id => (s.restart id).2
  | .turn place =>
      match s.tasks[place]? with
      | some t => { s with tasks := s.tasks.eraseIdx place }.turn t
      | none => s
  | .deliver => s.deliverNext
  | .register id => { s with handlers := (s.handlers.register id).2 }
  | .unregister token => { s with handlers := (s.handlers.unregister token).2 }
  | .finish p => (s.finish p).2
  | .pass ms => s.pass ms
  | .settle => s.settle

/-- What happens to a disabled scope is told to nobody. -/
theorem audience_of_disabled {t : ScopeTree} (hr : t.record? d = some r) (hDisabled : r.disabled = true) :
    audience t d = [] := by
  rw [audience, upward]
  cases t.arena.slots.size with
  | zero => rfl
  | succ n => simp [upwardWithin, hr, hDisabled]

/-- Only enabled scopes are told of anything. -/
theorem enabled_of_mem_audience {t : ScopeTree} {origin x : ScopeId} (hx : x ∈ audience t origin) :
    ∃ r, t.record? x = some r ∧ r.disabled = false := by
  obtain ⟨e, he, rfl⟩ := List.mem_map.1 hx
  refine ⟨e.2, record?_of_mem_upwardWithin ((List.takeWhile_sublist _).mem he), ?_⟩
  simpa using List.mem_takeWhile_imp he

/-! ## What stays -/

/-- A scope is disabled, with the state and the results of a record, and since some deliveries have
been made there has been none from it and none to a handler on it. -/
structure Frozen (d : ScopeId) (was : ScopeRecord) (told : List Delivery) (s : Session) : Prop where
  record : ∃ r, s.tree.record? d = some r ∧ r.disabled = true ∧ r.state = was.state ∧
    r.results = was.results
  silent : ∃ fresh, s.deliveries = told ++ fresh ∧
    ∀ x ∈ fresh, x.notice.origin ≠ d ∧ x.scope ≠ d

namespace Frozen

theorem of_record?_eq (h : Frozen d was told s) (hRecord : s'.tree.record? d = s.tree.record? d)
    (hDeliveries : s'.deliveries = s.deliveries) : Frozen d was told s' where
  record := hRecord ▸ h.record
  silent := hDeliveries ▸ h.silent

theorem ne_of_enabled {x : ScopeId} (h : Frozen d was told s) (hr : s.tree.record? x = some r)
    (hEnabled : r.disabled = false) : d ≠ x := by
  rintro rfl
  obtain ⟨r', hr', hDisabled, -⟩ := h.record
  obtain rfl := Option.some.inj (hr.symm.trans hr')
  simp [hEnabled] at hDisabled

/-- Another scope has been changed. -/
theorem of_modify (h : Frozen d was told s) {f : ScopeRecord → ScopeRecord} (hOther : d ≠ id)
    (hTree : s'.tree = s.tree.modify id f) (hDeliveries : s'.deliveries = s.deliveries) :
    Frozen d was told s' := by
  refine h.of_record?_eq ?_ hDeliveries
  rw [hTree, record?_modify, if_neg hOther]

theorem start (h : Frozen d was told s) (id : ScopeId) (force : Bool) :
    Frozen d was told (s.start id force).2 := by
  rcases start_cases s id force with hSame | ⟨r, hr, hEnabled, -, hStart⟩
  · rwa [hSame]
  · rw [hStart]
    exact h.of_modify (h.ne_of_enabled hr hEnabled) rfl rfl

/-- An evaluation of the scope that was under way stores nothing. -/
theorem complete (h : Frozen d was told s) (run : Publisher) (values : List Value) :
    Frozen d was told (s.complete run values) := by
  rcases complete_cases s run values with ⟨-, hSame⟩ | ⟨hCurrent, hTree, -⟩
  · rwa [hSame]
  · obtain ⟨r, hr, -, hEnabled⟩ := isCurrent_iff.1 hCurrent
    refine h.of_modify (h.ne_of_enabled hr hEnabled) hTree ?_
    rw [Session.complete]
    split <;> rfl

theorem publish (h : Frozen d was told s) (run : Option Publisher) (target : ScopeId)
    (name : String) (data : Value) : Frozen d was told (s.publish run target name data) := by
  rcases publish_cases s run target name data with ⟨-, hSame⟩ | ⟨result, hAccepts, hTree, -⟩
  · rwa [hSame]
  · have hOther : d ≠ target := by
      rintro rfl
      obtain ⟨r, hr, hDisabled, -⟩ := h.record
      have hFlag : s.tree.isDisabled d = true := by
        rw [isDisabled, hr]
        exact hDisabled
      simp [accepts, hFlag] at hAccepts
    refine h.of_modify hOther hTree ?_
    rw [Session.publish]
    split <;> rfl

/-- A notice of the scope that was waiting is delivered to nobody, and no notice to a handler on it. -/
theorem deliverNext (h : Frozen d was told s) : Frozen d was told s.deliverNext := by
  rcases deliverNext_cases s with hSame | ⟨notice, rest, -, -, hNext⟩
  · rwa [hSame]
  · obtain ⟨fresh, hDeliveries, hFresh⟩ := h.silent
    obtain ⟨r, hr, hDisabled, -⟩ := h.record
    rw [hNext]
    refine ⟨h.record, fresh ++ s.deliver notice, ?_, ?_⟩
    · rw [← List.append_assoc, ← hDeliveries]
    · intro x hx
      rcases List.mem_append.1 hx with hx | hx
      · exact hFresh x hx
      · obtain ⟨scope, hScope, hx⟩ := List.mem_flatMap.1 hx
        obtain ⟨token, -, rfl⟩ := List.mem_map.1 hx
        constructor
        · intro hOrigin
          dsimp only at hOrigin
          rw [hOrigin, audience_of_disabled hr hDisabled] at hScope
          cases hScope
        · obtain ⟨r', hr', hEnabled⟩ := enabled_of_mem_audience hScope
          exact (h.ne_of_enabled hr' hEnabled).symm

end Frozen

/-- No evaluation thaws a scope. -/
theorem lasting_frozen (d : ScopeId) (was : ScopeRecord) (told : List Delivery) :
    Lasting (Frozen d was told) where
  listen _ h := h.of_record?_eq rfl rfl
  start _ id h := h.start id false
  publish _ run target name data h := h.publish run target name data
  ask _ _ h := h.of_record?_eq rfl rfl
  complete _ run values h := h.complete run values
  tasks _ _ h := h.of_record?_eq rfl rfl
  deliverNext _ h := h.deliverNext
  clock _ _ h := h.of_record?_eq rfl rfl

namespace Frozen

theorem disable (h : Frozen d was told s) (hRooted : s.tree.Rooted) (id : ScopeId) :
    Frozen d was told (s.disable id) := by
  obtain ⟨r, hr, hDisabled, hState, hResults⟩ := h.record
  refine ⟨?_, h.silent⟩
  rw [Session.disable, record?_disable hRooted]
  split
  · exact ⟨r.disable, by rw [hr]; rfl, rfl, hState, hResults⟩
  · exact ⟨r, hr, hDisabled, hState, hResults⟩

/-- A rebuilding drops the scope or leaves it as it is. -/
theorem rebuild {doc : Document} {new : ScopeId} (h : Frozen d was told s) (hRooted : s.tree.Rooted)
    (hRebuild : s.rebuild id doc = .ok (new, s')) (hLive : s'.tree.isLive d = true) :
    Frozen d was told s' := by
  obtain ⟨gone, hTree, -⟩ := rebuild_cases hRebuild
  obtain ⟨r, hr, hDisabled, hState, hResults⟩ := h.record
  have hLeft : d ∉ gone := by
    intro hGone
    have hNone : s'.tree.arena.get? d = none := record?_of_gone hRooted hTree hGone
    rw [ScopeTree.isLive, Arena.isLive, hNone] at hLive
    cases hLive
  obtain ⟨r', hr', hSame⟩ := (record?_rebuild hRooted hTree).1 d r hr hLeft
  refine ⟨⟨r', hr', hSame.disabled.trans hDisabled, hSame.state.trans hState,
    hSame.results.trans hResults⟩, ?_⟩
  have hDeliveries : s'.deliveries = s.deliveries := by
    rw [Session.rebuild] at hRebuild
    cases hResult : s.tree.rebuild id doc with
    | error e => rw [hResult] at hRebuild; cases hRebuild
    | ok result => rw [hResult] at hRebuild; cases hRebuild; rfl
  exact hDeliveries ▸ h.silent

theorem apply (h : Frozen d was told s) (hRooted : s.tree.Rooted) (e : Event)
    (hLive : (s.apply e).tree.isLive d = true) : Frozen d was told (s.apply e) := by
  cases e with
  | start id force => exact h.start id force
  | complete place values =>
    change Frozen d was told (s.completeAt place values)
    rcases completeAt_cases s place values with hSame | ⟨t, -, -, hComplete⟩
    · rwa [hSame]
    · rw [hComplete]
      exact ((lasting_frozen d was told).tasks s _ h).complete t.run values
  | publish run target name data => exact h.publish run target name data
  | disable id => exact h.disable hRooted id
  | rebuild id doc =>
    rw [Session.apply] at hLive ⊢
    split at hLive
    · rename_i hRebuild
      exact h.rebuild hRooted hRebuild hLive
    · exact h

/-- As long as the scope is live, every action leaves it frozen. -/
theorem act (h : Frozen d was told s) (hRooted : s.tree.Rooted) (a : Action)
    (hLive : (s.act a).tree.isLive d = true) : Frozen d was told (s.act a) := by
  have hLasting := lasting_frozen d was told
  cases a with
  | event e => exact h.apply hRooted e hLive
  | evaluate id => exact hLasting.startAll h id
  | reevaluate id => exact (hLasting.listen s h).start id true
  | turn place =>
    rw [Session.act]
    split
    · exact hLasting.turn (hLasting.tasks s _ h) _
    · exact h
  | deliver => exact h.deliverNext
  | register id => exact h.of_record?_eq rfl rfl
  | unregister token => exact h.of_record?_eq rfl rfl
  | finish p => exact hLasting.finish p h
  | pass ms => exact hLasting.pass ms h
  | settle => exact hLasting.settle h

end Frozen

/-! ## What a disabled scope owns -/

theorem Frozen.restart (h : Frozen d was told s) :
    (s.restart d).1 = .error (.scopeNotFound d.text) := by
  obtain ⟨r, hr, hDisabled, -⟩ := h.record
  have hRecord : s.listen.tree.record? d = some r := hr
  simp [Session.restart, Session.start, hRecord, hDisabled]

def nestedBlueprint : Blueprint :=
  .scope "root" ⟨none, [], ⟨0, 0, 1, 1⟩⟩
    [.scope "a" ⟨none, [.string ⟨0, 1, 1, 1⟩ "x"], ⟨0, 1, 1, 1⟩⟩
      [.scope "b" ⟨none, [.string ⟨0, 1, 1, 1⟩ "y"], ⟨0, 1, 1, 1⟩⟩ [] []] []] []

theorem build_nested : build nested = planted nestedBlueprint := build_eq (by cbv)

end FormulaOutline.Session
