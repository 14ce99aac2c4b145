import FormulaOutline.Document.Outline
import FormulaOutline.Proofs.Evaluation.Expressions
import FormulaOutline.Proofs.Scope.Aging
import FormulaOutline.Proofs.Scope.Layout
import FormulaOutline.Proofs.Session.Polling

/-!
# Evaluations in any order

A scheduler picks any of the evaluations under way and lets it go on until it has to wait. As long as
no wait times out and no call reads too deep with its type, the order leaves no trace in the values.

* `Schedule`: the choices of a scheduler; `Session.scheduled` is what they do to a session.
* `meaning`: the values of a scope's parts as a larger tree tells them.
* `Underway`: the invariant. Whatever larger tree is taken, each evaluation under way ends in its
  meaning there, and the values that are stored are meanings too.
* `values?_scheduled_eq`: two complete schedules of the same evaluations end with the same values.
-/

namespace FormulaOutline

open Process ScopeTree

namespace Session

/-! ## Schedules -/

/-- What a scheduler decides. -/
inductive Choice
  /-- The evaluation at a place among those under way goes on until it has to wait. -/
  | turn (place : Nat)
  /-- Time passes, in milliseconds. -/
  | elapse (ms : Nat)
  /-- What has happened is delivered. -/
  | deliver

/-- Whether nobody has waited in vain after some time. -/
def isPatient (s : Session) (ms : Nat) : Bool :=
  s.tasks.all fun t => (deadlinesOf t.parts).all (s.clock + ms < ·)

/-- The session after a choice; time does not pass if a wait would time out. -/
def schedule (s : Session) : Choice → Session
  | .turn place =>
      match s.tasks[place]? with
      | some t => { s with tasks := s.tasks.eraseIdx place }.turn t
      | none => s
  | .elapse ms => if s.isPatient ms then { s with clock := s.clock + ms } else s
  | .deliver => s.dispatch

/-- The session after choices, the first one first. -/
def scheduled (s : Session) (choices : List Choice) : Session := choices.foldl schedule s

/-! ## The invariant -/

variable {s s' : Session} {t : ScopeTree}

/-- The values of the parts of a scope as its evaluation finds them in one tree. -/
def meaning (functions : Registry) (u : ScopeTree) (x : ScopeId) : List Value :=
  settledAll u (((u.record? x).map (partsOf functions x)).getD [])

/-- Evaluations of the scopes of a built tree under way. Whatever larger tree is taken, each of them
comes to its meaning there, and what is stored is the meaning too. -/
structure Underway (d : Document) (functions : Registry) (s : Session) : Prop where
  ready : s.Ready
  same : (build d).SameShape s.tree
  epoch : ∀ x r, s.tree.record? x = some r → r.epoch = 1
  honest : s.tree.Honest
  current : ∀ t ∈ s.tasks, s.tree.isLive t.run.scope = true ∧ t.run.epoch = 1
  covered : ∀ x, s.tree.isLive x = true → s.tree.values? x = none → ∃ t ∈ s.tasks, t.run.scope = x
  deadlines : ∀ t ∈ s.tasks, ∀ time ∈ deadlinesOf t.parts, s.clock < time
  steady : ∀ u, s.tree.Within u → ∀ t ∈ s.tasks,
    AllSteady u true t.parts (FitsIn (build d) t.run.scope) s.tree ∧
      settledAll u t.parts = meaning functions u t.run.scope
  stored : ∀ u, s.tree.Within u → ∀ x vs, s.tree.values? x = some vs → vs = meaning functions u x

variable {d : Document} {functions : Registry} {config : EngineConfig} {providers : Directory}

/-- The session after the start of all evaluations of a document. -/
def evaluating (d : Document) (functions : Registry) (config : EngineConfig)
    (providers : Directory) : Session :=
  (ofTree (build d) functions config providers).startAll (build d).root

/-! ### The start -/

/-- The evaluation with which a scope begins. -/
def firstTask (t : ScopeTree) (functions : Registry) (x : ScopeId) : Task :=
  ⟨⟨x, 1⟩, ((t.record? x).map (partsOf functions x)).getD []⟩

theorem foldl_start {ids : List ScopeId} (hNodup : ids.Nodup)
    (hShape : ∀ x ∈ ids, ∃ r, s.tree.record? x = some r ∧ r.shape = r) :
    ids.foldl (fun s x => (s.start x false).2) s =
      { s with
        tree := s.tree.modifyAll ids begun
        tasks := s.tasks ++ ids.map (firstTask s.tree s.functions) } := by
  have hWaits : ids.filter s.waits = ids := List.filter_eq_self.2 fun x hx => by
    obtain ⟨r, hr, hFresh⟩ := hShape x hx
    exact waits_iff.2 ⟨r, hr, by rw [← hFresh]; rfl, by rw [← hFresh]; rfl⟩
  have hTasks : ids.map s.nextTask = ids.map (firstTask s.tree s.functions) :=
    List.map_congr_left fun x hx => by
      obtain ⟨r, hr, hFresh⟩ := hShape x hx
      have hEpoch : r.epoch = 0 := by rw [← hFresh]; rfl
      rw [nextTask, firstTask, hr, Option.map_some, hEpoch]
      rfl
  rw [startEach_eq hNodup, hWaits, started, hTasks]

theorem evaluating_eq : evaluating d functions config providers =
    { (ofTree (build d) functions config providers).listen with
      tree := (build d).modifyAll ((build d).owned (build d).root) begun
      tasks := ((build d).owned (build d).root).map (firstTask (build d) functions) } := by
  have hRooted := rooted_build d
  have hStart := foldl_start (s := (ofTree (build d) functions config providers).listen)
    (nodup_owned hRooted (build d).root) fun x hx => by
      obtain ⟨r, hr⟩ := Arena.isLive_iff.1 (hRooted.mem_owned_root.1 hx)
      exact ⟨r, hr, shape_build d hr⟩
  exact hStart

theorem record?_evaluating (x : ScopeId) :
    (evaluating d functions config providers).tree.record? x =
      ((build d).record? x).map begun := by
  have hRooted := rooted_build d
  rw [evaluating_eq]
  dsimp only
  rw [record?_modifyAll (nodup_owned hRooted _)]
  split
  · rfl
  · rename_i hx
    rw [hRooted.mem_owned_root, ScopeTree.isLive, Arena.isLive_iff] at hx
    cases hr : (build d).record? x with
    | none => rfl
    | some r => exact (hx ⟨r, hr⟩).elim

theorem modifyAll_frame (t : ScopeTree) (ids : List ScopeId) (f : ScopeRecord → ScopeRecord) :
    (t.modifyAll ids f).root = t.root ∧
      (t.modifyAll ids f).arena.slots.size = t.arena.slots.size := by
  induction ids generalizing t with
  | nil => exact ⟨rfl, rfl⟩
  | cons x rest ih =>
    obtain ⟨hRoot, hSlots⟩ := ih (t.modify x f)
    exact ⟨hRoot, hSlots.trans (t.arena.size_modify x f)⟩

theorem sameShape_evaluating :
    (build d).SameShape (evaluating d functions config providers).tree where
  root := by
    rw [evaluating_eq]
    exact (modifyAll_frame _ _ _).1.symm
  slots := by
    rw [evaluating_eq]
    exact (modifyAll_frame _ _ _).2.symm
  shapes x := by
    rw [record?_evaluating, Option.map_map]
    rfl

theorem values?_evaluating (x : ScopeId) :
    (evaluating d functions config providers).tree.values? x = none := by
  rw [ScopeTree.values?, state, record?_evaluating]
  cases hr : (build d).record? x with
  | none => rfl
  | some r =>
    have hState : r.state = .idle := state_build d hr
    simp only [Option.map_some, begun, hState]
    rfl

theorem meaning_eq {b u : ScopeTree} (h : b.SameShape u) (x : ScopeId) :
    meaning functions u x =
      settledAll u (((b.record? x).map (partsOf functions x)).getD []) := by
  rw [meaning, h.map_record? (partsOf functions x) (fun _ => rfl) x]

theorem honest_evaluating : (evaluating d functions config providers).tree.Honest := by
  intro x vs hx
  rw [values?_evaluating] at hx
  cases hx

theorem exists_of_record?_evaluating {x : ScopeId} {r : ScopeRecord}
    (hr : (evaluating d functions config providers).tree.record? x = some r) :
    ∃ r', r'.shape = r' ∧ r = begun r' := by
  rw [record?_evaluating, Option.map_eq_some_iff] at hr
  obtain ⟨r', hr', rfl⟩ := hr
  exact ⟨r', shape_build d hr', rfl⟩

theorem exists_of_mem_tasks_evaluating {t : Task}
    (ht : t ∈ (evaluating d functions config providers).tasks) :
    ∃ x r, (build d).record? x = some r ∧ t = ⟨⟨x, 1⟩, partsOf functions x r⟩ := by
  rw [evaluating_eq] at ht
  obtain ⟨x, hx, rfl⟩ := List.mem_map.1 ht
  obtain ⟨r, hr⟩ := Arena.isLive_iff.1 ((rooted_build d).mem_owned_root.1 hx)
  exact ⟨x, r, hr, by rw [firstTask, show (build d).record? x = some r from hr]; rfl⟩

theorem steady_evaluating (hLocal : functions.IsLocal) (hDeep : (build d).deepReads = [])
    {u : ScopeTree} (hu : (evaluating d functions config providers).tree.Within u) {t : Task}
    (ht : t ∈ (evaluating d functions config providers).tasks) :
    AllSteady u false t.parts (FitsIn (build d) t.run.scope)
      (evaluating d functions config providers).tree := by
  obtain ⟨x, r, hr, rfl⟩ := exists_of_mem_tasks_evaluating ht
  rw [allSteady_iff]
  intro p hp
  simp only [partsOf] at hp
  split at hp
  · cases hp
  · obtain ⟨e, he, rfl⟩ := List.mem_map.1 hp
    exact steady_part hLocal hDeep hr he sameShape_evaluating hu honest_evaluating

theorem underway_evaluating (hLocal : functions.IsLocal) (hDeep : (build d).deepReads = [])
    (hTimeout : 0 < config.resolutionTimeoutMs) :
    Underway d functions (evaluating d functions config providers) := by
  set s := evaluating d functions config providers with hs
  have hSame : (build d).SameShape s.tree := sameShape_evaluating
  have hConfig : s.config = config := by
    rw [hs, evaluating_eq]
    rfl
  have hSteady : ∀ u, s.tree.Within u → ∀ t ∈ s.tasks,
      AllSteady u false t.parts (FitsIn (build d) t.run.scope) s.tree := fun u hu t ht =>
    steady_evaluating hLocal hDeep hu ht
  refine
    { ready := ⟨hConfig ▸ hTimeout, ?_⟩
      same := hSame
      epoch := ?_
      honest := honest_evaluating
      current := ?_
      covered := ?_
      deadlines := ?_
      steady := fun u hu t ht => ⟨(hSteady u hu t ht).begun, ?_⟩
      stored := ?_ }
  · intro x r hr
    obtain ⟨r', hShape, rfl⟩ := exists_of_record?_evaluating hr
    rw [← hShape]
    exact ⟨rfl, rfl⟩
  · intro x r hr
    obtain ⟨r', hShape, rfl⟩ := exists_of_record?_evaluating hr
    rw [← hShape]
    rfl
  · intro t ht
    obtain ⟨x, r, hr, rfl⟩ := exists_of_mem_tasks_evaluating ht
    refine ⟨?_, rfl⟩
    rw [← hSame.isLive]
    exact Arena.isLive_iff.2 ⟨r, hr⟩
  · intro x hx _
    rw [← hSame.isLive] at hx
    rw [hs, evaluating_eq]
    exact ⟨_, List.mem_map_of_mem ((rooted_build d).mem_owned_root.2 hx), rfl⟩
  · intro t ht
    rw [deadlinesOf_eq_nil _ (hSteady s.tree (.refl _) t ht)]
    simp
  · obtain ⟨x, r, hr, rfl⟩ := exists_of_mem_tasks_evaluating ht
    rw [meaning_eq (hSame.trans hu.same), hr]
    rfl
  · intro u _ x vs hx
    rw [values?_evaluating] at hx
    cases hx

/-! ### One step -/

/-- A record with the values of its parts. -/
def withValues (vs : List Value) (r : ScopeRecord) : ScopeRecord := { r with state := .resolved vs }

theorem sameShape_withValues (t : ScopeTree) (x : ScopeId) (vs : List Value) :
    t.SameShape (t.modify x (withValues vs)) :=
  sameShape_modify t x fun _ => rfl

theorem values?_withValues {x : ScopeId} (hLive : t.isLive x = true) (vs : List Value)
    (y : ScopeId) :
    (t.modify x (withValues vs)).values? y = if y = x then some vs else t.values? y := by
  obtain ⟨r, hr⟩ := Arena.isLive_iff.1 hLive
  rw [ScopeTree.values?, state, record?_modify]
  split
  · rw [show t.record? x = some r from hr]
    rfl
  · rfl

/-- What a step adds to the values are meanings in all larger trees. -/
structure Advances (functions : Registry) (s s' : Session) : Prop where
  within : s.tree.Within s'.tree
  stored : ∀ u, s.tree.Within u → ∀ x vs, s'.tree.values? x = some vs → vs = meaning functions u x

variable (h : Underway d functions s)

include h

theorem Underway.advances_of_tree_eq (hTree : s'.tree = s.tree) : Advances functions s s' where
  within := hTree ▸ .refl s.tree
  stored := fun u hu x vs hx => h.stored u hu x vs (hTree ▸ hx)

/-- A change that is not one of the tree. -/
theorem Underway.of_tree_eq (hTree : s'.tree = s.tree) (hConfig : s'.config = s.config)
    (hCurrent : ∀ t ∈ s'.tasks, s.tree.isLive t.run.scope = true ∧ t.run.epoch = 1)
    (hCovered : ∀ t ∈ s.tasks, ∃ t' ∈ s'.tasks, t'.run.scope = t.run.scope)
    (hDeadlines : ∀ t ∈ s'.tasks, ∀ time ∈ deadlinesOf t.parts, s'.clock < time)
    (hSteady : ∀ u, s.tree.Within u → ∀ t ∈ s'.tasks,
      AllSteady u true t.parts (FitsIn (build d) t.run.scope) s.tree ∧
        settledAll u t.parts = meaning functions u t.run.scope) : Underway d functions s' where
  ready := ⟨hConfig ▸ h.ready.timeout, hTree ▸ h.ready.begun⟩
  same := hTree ▸ h.same
  epoch := hTree ▸ h.epoch
  honest := hTree ▸ h.honest
  current := hTree ▸ hCurrent
  covered := by
    intro x hx hNone
    rw [hTree] at hx hNone
    obtain ⟨t, ht, rfl⟩ := h.covered x hx hNone
    exact hCovered t ht
  deadlines := hDeadlines
  steady := hTree ▸ hSteady
  stored := hTree ▸ h.stored

theorem Underway.advances_store {x : ScopeId} {vs : List Value} (hLive : s.tree.isLive x = true)
    (hTree : s'.tree = s.tree.modify x (withValues vs))
    (hMeaning : ∀ u, s.tree.Within u → vs = meaning functions u x) : Advances functions s s' where
  within := by
    refine ⟨hTree ▸ sameShape_withValues _ _ _, fun y ws hy => ?_⟩
    rw [hTree, values?_withValues hLive]
    split
    · rename_i hScope
      rw [hScope] at hy
      rw [hMeaning s.tree (.refl _), h.stored s.tree (.refl _) _ ws hy]
    · exact hy
  stored := by
    intro u hu y ws hy
    rw [hTree, values?_withValues hLive] at hy
    split at hy
    · rename_i hScope
      cases hy
      rw [hScope]
      exact hMeaning u hu
    · exact h.stored u hu y ws hy

/-- An evaluation that ends stores its meaning. -/
theorem Underway.store {t : Task} {vs : List Value} (ht : t ∈ s.tasks)
    (hTree : s'.tree = s.tree.modify t.run.scope (withValues vs)) (hConfig : s'.config = s.config)
    (hClock : s'.clock = s.clock) (hTasks : s'.tasks ⊆ s.tasks)
    (hOthers : ∀ t' ∈ s.tasks, t' = t ∨ t' ∈ s'.tasks)
    (hFits : ∀ v ∈ vs, FitsIn (build d) t.run.scope v)
    (hMeaning : ∀ u, s.tree.Within u → vs = meaning functions u t.run.scope) :
    Underway d functions s' ∧ Advances functions s s' := by
  have hLive := (h.current t ht).1
  have hAdvances : Advances functions s s' := h.advances_store hLive hTree hMeaning
  have hSame : s.tree.SameShape s'.tree := hAdvances.within.same
  have hRecord : ∀ x r, s'.tree.record? x = some r →
      ∃ r', s.tree.record? x = some r' ∧ (r = r' ∨ r = withValues vs r') := by
    intro x r hr
    obtain ⟨r', hr', hCases⟩ := exists_of_record?_modify (hTree ▸ hr)
    exact ⟨r', hr', hCases.imp And.right And.right⟩
  refine ⟨?_, hAdvances⟩
  refine
    { ready := ⟨hConfig ▸ h.ready.timeout, ?_⟩
      same := h.same.trans hSame
      epoch := ?_
      honest := ?_
      current := ?_
      covered := ?_
      deadlines := hClock ▸ fun t' ht' => h.deadlines t' (hTasks ht')
      steady := ?_
      stored := fun u hu => hAdvances.stored u (hAdvances.within.trans hu) }
  · intro x r hr
    obtain ⟨r', hr', rfl | rfl⟩ := hRecord x r hr
    · exact h.ready.begun x r hr'
    · exact ⟨(h.ready.begun x r' hr').1, rfl⟩
  · intro x r hr
    obtain ⟨r', hr', rfl | rfl⟩ := hRecord x r hr
    · exact h.epoch x r hr'
    · exact h.epoch x r' hr'
  · intro x ws hx v hv
    rw [hTree, values?_withValues hLive] at hx
    rw [← hSame.pointed]
    split at hx
    · rename_i hScope
      cases hx
      rw [hScope, ← h.same.pointed]
      exact hFits v hv
    · exact h.honest x ws hx v hv
  · intro t' ht'
    rw [← hSame.isLive]
    exact h.current t' (hTasks ht')
  · intro x hx hNone
    rw [hTree, values?_withValues hLive] at hNone
    split at hNone
    · cases hNone
    · rename_i hScope
      rw [← hSame.isLive] at hx
      obtain ⟨t', ht', rfl⟩ := h.covered x hx hNone
      exact ⟨t', (hOthers t' ht').resolve_left fun hEq => hScope (by rw [hEq]), rfl⟩
  · intro u hu t' ht'
    obtain ⟨hSteady, hSettled⟩ := h.steady u (hAdvances.within.trans hu) t' (hTasks ht')
    exact ⟨AllSteady.mono _ hSteady hAdvances.within, hSettled⟩

/-- An evaluation that has to wait leaves what remains of it. -/
theorem Underway.wait {t : Task} {parts : List Process} (ht : t ∈ s.tasks)
    (hTree : s'.tree = s.tree) (hConfig : s'.config = s.config) (hClock : s'.clock = s.clock)
    (hTasks : ∀ t' ∈ s'.tasks, t' ∈ s.tasks ∨ t' = ⟨t.run, parts⟩)
    (hRemains : ⟨t.run, parts⟩ ∈ s'.tasks) (hOthers : ∀ t' ∈ s.tasks, t' = t ∨ t' ∈ s'.tasks)
    (hAhead : ∀ u, s.tree.Within u → ∃ s₀ s₁ : Session, s₀.tree = s.tree ∧ s₀.clock = s.clock ∧
      AllAhead u s₀ t.parts (FitsIn (build d) t.run.scope) (parts, s₁)) :
    Underway d functions s' := by
  refine h.of_tree_eq hTree hConfig ?_ ?_ ?_ ?_
  · intro t' ht'
    rcases hTasks t' ht' with ht' | rfl
    · exact h.current t' ht'
    · exact h.current t ht
  · intro t' ht'
    rcases hOthers t' ht' with rfl | ht'
    · exact ⟨_, hRemains, rfl⟩
    · exact ⟨t', ht', rfl⟩
  · intro t' ht'
    rw [hClock]
    rcases hTasks t' ht' with ht' | rfl
    · exact h.deadlines t' ht'
    · obtain ⟨_, _, -, hClock₀, hAll⟩ := hAhead s.tree (.refl _)
      exact hClock₀ ▸ hAll.deadlines
  · intro u hu t' ht'
    rcases hTasks t' ht' with ht' | rfl
    · exact h.steady u hu t' ht'
    · obtain ⟨_, _, hTree₀, -, hAll⟩ := hAhead u hu
      exact ⟨hTree₀ ▸ hAll.steady, hAll.settled.trans (h.steady u hu t ht).2⟩

/-- An evaluation goes on until it has to wait or has ended. -/
theorem Underway.turn {place : Nat} {t : Task} (ht : s.tasks[place]? = some t) :
    Underway d functions ({ s with tasks := s.tasks.eraseIdx place }.turn t) ∧
      Advances functions s ({ s with tasks := s.tasks.eraseIdx place }.turn t) := by
  have hMem : t ∈ s.tasks := List.mem_of_getElem? ht
  have hSubset : s.tasks.eraseIdx place ⊆ s.tasks := List.eraseIdx_subset
  have hOthers : ∀ t' ∈ s.tasks, t' = t ∨ t' ∈ s.tasks.eraseIdx place := by
    obtain ⟨hPlace, rfl⟩ := List.getElem?_eq_some_iff.1 ht
    intro t' ht'
    exact List.mem_cons.1 ((List.getElem_cons_eraseIdx_perm hPlace).mem_iff.2 ht')
  set s₀ : Session := { s with tasks := s.tasks.eraseIdx place } with hs₀
  have hReady : s₀.Ready := ⟨h.ready.timeout, h.ready.begun⟩
  have hAhead : ∀ u, s.tree.Within u → AllAhead u s₀ t.parts (FitsIn (build d) t.run.scope)
      (pollAll (some t.run) t.parts s₀) := fun u hu =>
    ahead_pollAll _ t.parts hReady hu h.honest (h.steady u hu t hMem).1 (h.deadlines t hMem)
  rw [Session.turn]
  generalize pollAll (some t.run) t.parts s₀ = after at hAhead
  obtain ⟨parts, s₁⟩ := after
  have hNow := hAhead s.tree (.refl _)
  have hTree : s₁.tree = s.tree := hNow.session.tree_eq
  have hClock : s₁.clock = s.clock := hNow.session.clock_eq
  have hSession : s₁.tasks = s.tasks.eraseIdx place ∧ s₁.config = s.config := by
    rcases hNow.session with hSame | hSame <;> rw [show s₁ = _ from hSame] <;> exact ⟨rfl, rfl⟩
  dsimp only at hAhead hNow ⊢
  cases hValues : Process.values? parts with
  | none =>
    dsimp only
    refine ⟨h.wait hMem hTree hSession.2 hClock ?_ ?_ ?_ fun u hu => ⟨s₀, s₁, rfl, rfl, hAhead u hu⟩,
      h.advances_of_tree_eq hTree⟩
    · intro t' ht'
      rw [hSession.1, List.mem_append, List.mem_singleton] at ht'
      exact ht'.imp_left fun ht' => hSubset ht'
    · exact List.mem_append_right _ (List.mem_singleton_self _)
    · intro t' ht'
      exact (hOthers t' ht').imp_right fun ht' => List.mem_append_left _ (hSession.1 ▸ ht')
  | some vs =>
    have hFits : ∀ v ∈ vs, FitsIn (build d) t.run.scope v := (hNow.of_done hValues).2
    have hMeaning : ∀ u, s.tree.Within u → vs = meaning functions u t.run.scope := by
      intro u hu
      rw [← (h.steady u hu t hMem).2, ((hAhead u hu).of_done hValues).1]
    have hCurrent : s₁.isCurrent t.run = true := by
      obtain ⟨hLive, hEpoch⟩ := h.current t hMem
      obtain ⟨r, hr⟩ := Arena.isLive_iff.1 hLive
      rw [isCurrent_iff, hTree, hEpoch]
      exact ⟨r, hr, h.epoch _ r hr, (h.ready.begun _ r hr).1⟩
    dsimp only
    rw [complete, if_pos hCurrent]
    refine h.store hMem ?_ hSession.2 hClock ?_ ?_ hFits hMeaning
    · rw [← hTree]
      rfl
    · exact fun t' ht' => hSubset (hSession.1 ▸ ht')
    · exact fun t' ht' => (hOthers t' ht').imp_right fun ht' => hSession.1.symm ▸ ht'

theorem Underway.schedule (c : Choice) :
    Underway d functions (s.schedule c) ∧ Advances functions s (s.schedule c) := by
  cases c with
  | turn place =>
    rw [Session.schedule]
    split
    · rename_i t ht
      exact h.turn ht
    · exact ⟨h, h.advances_of_tree_eq rfl⟩
  | elapse ms =>
    rw [Session.schedule]
    split
    · rename_i hPatient
      refine ⟨h.of_tree_eq rfl rfl h.current (fun t ht => ⟨t, ht, rfl⟩) ?_ h.steady,
        h.advances_of_tree_eq rfl⟩
      intro t ht time hTime
      rw [isPatient, List.all_eq_true] at hPatient
      have hAll := hPatient t ht
      rw [List.all_eq_true] at hAll
      exact of_decide_eq_true (hAll time hTime)
    · exact ⟨h, h.advances_of_tree_eq rfl⟩
  | deliver =>
    rw [Session.schedule, dispatch]
    split
    · exact ⟨h.of_tree_eq rfl rfl h.current (fun t ht => ⟨t, ht, rfl⟩) h.deadlines h.steady,
        h.advances_of_tree_eq rfl⟩
    · exact ⟨h, h.advances_of_tree_eq rfl⟩

theorem Underway.scheduled (choices : List Choice) :
    Underway d functions (s.scheduled choices) := by
  induction choices generalizing s with
  | nil => exact h
  | cons c rest ih => exact ih (h.schedule c).1

/-! ## Complete schedules -/

/-- When nothing is under way any more, every scope has its meaning. -/
theorem Underway.values?_of_done (hDone : s.tasks = []) {x : ScopeId}
    (hLive : s.tree.isLive x = true) : s.tree.values? x = some (meaning functions s.tree x) := by
  cases hx : s.tree.values? x with
  | none =>
    obtain ⟨t, ht, -⟩ := h.covered x hLive hx
    rw [hDone] at ht
    cases ht
  | some vs => rw [h.stored s.tree (.refl _) x vs hx]

/-- On the way to its end a schedule finds nothing but what another one has found at its end. -/
theorem Underway.within_of_done {a : Session} (ha : Underway d functions a) (hDone : a.tasks = [])
    (hWithin : s.tree.Within a.tree) (choices : List Choice) :
    (s.scheduled choices).tree.Within a.tree := by
  induction choices generalizing s with
  | nil => exact hWithin
  | cons c rest ih =>
    obtain ⟨hNext, hAdvances⟩ := h.schedule c
    refine ih hNext ⟨hNext.same.symm.trans ha.same, fun x vs hx => ?_⟩
    have hLive : a.tree.isLive x = true := by
      rw [← (hNext.same.symm.trans ha.same).isLive]
      by_contra hDead
      rw [Bool.not_eq_true] at hDead
      rw [values?_eq_none_of_dead hDead] at hx
      cases hx
    rw [ha.values?_of_done hDone hLive, hAdvances.stored a.tree hWithin x vs hx]

omit h

/-- Without calls that read too deep the order in which evaluations go on does not matter. -/
theorem values?_scheduled_eq (hLocal : functions.IsLocal) (hDeep : (build d).deepReads = [])
    (hTimeout : 0 < config.resolutionTimeoutMs) (first second : List Choice)
    (hFirst : ((evaluating d functions config providers).scheduled first).tasks = [])
    (hSecond : ((evaluating d functions config providers).scheduled second).tasks = [])
    (x : ScopeId) :
    ((evaluating d functions config providers).scheduled first).tree.values? x =
        ((evaluating d functions config providers).scheduled second).tree.values? x ∧
      ((build d).isLive x = true →
        ((evaluating d functions config providers).scheduled first).tree.isResolved x = true) := by
  have hStart : Underway d functions (evaluating d functions config providers) :=
    underway_evaluating hLocal hDeep hTimeout
  have ha := hStart.scheduled first
  have hb := hStart.scheduled second
  have hWithin := hStart.within_of_done ha hFirst
    ⟨sameShape_evaluating.symm.trans ha.same, fun y vs hy => by
      rw [values?_evaluating] at hy
      cases hy⟩ second
  by_cases hLive : (build d).isLive x = true
  · have hValue := ha.values?_of_done hFirst (ha.same.isLive x ▸ hLive)
    have hValue' := hb.values?_of_done hSecond (hb.same.isLive x ▸ hLive)
    refine ⟨?_, fun _ => ?_⟩
    · rw [hValue', hWithin.values x _ hValue']
    · rw [isResolved, hValue]
      rfl
  · rw [Bool.not_eq_true] at hLive
    refine ⟨?_, fun hContra => ?_⟩
    · rw [values?_eq_none_of_dead (ha.same.isLive x ▸ hLive),
        values?_eq_none_of_dead (hb.same.isLive x ▸ hLive)]
    · rw [hLive] at hContra
      cases hContra

/-! ### Two documents -/

/-- The bullet of a formula that refers to a node. -/
def pointing (node : NodeId) : Formula.Bullet :=
  ⟨none, [.inline ⟨0, 6, 1, 1⟩ (.reference ⟨1, 5, 1, 2⟩ node)], ⟨0, 6, 1, 1⟩⟩

def five : Blueprint := .scope "y" ⟨none, [.string ⟨0, 1, 1, 1⟩ "5"], ⟨0, 1, 1, 1⟩⟩ [] []

def pointer : Blueprint := .scope "x" (pointing "y") [] [five]

/-- A sum of a scope that points to a number. -/
def shallow : Document :=
  ⟨"root", [⟨"root", "", ["y", "x", "r"]⟩, ⟨"y", "5", []⟩, ⟨"x", "\x7b#[y]\x7d", []⟩,
    ⟨"r", "\x7bSum(#[x])\x7d", []⟩], 0⟩

def shallowBlueprint : Blueprint :=
  .scope "root" ⟨none, [], ⟨0, 0, 1, 1⟩⟩
    [five, pointer,
      .scope "r"
        ⟨none, [.inline ⟨0, 11, 1, 1⟩ (.call ⟨1, 10, 1, 2⟩ "Sum"
          [⟨none, .reference ⟨5, 9, 1, 6⟩ "x", ⟨5, 9, 1, 6⟩⟩])], ⟨0, 11, 1, 1⟩⟩ [] [pointer]] []

theorem build_shallow : build shallow = planted shallowBlueprint := build_eq (by cbv)

theorem isLocal_withoutProviders : Registry.withoutProviders.IsLocal := fun _ hf => hf

/-- The sum goes on early and waits, or it goes on when its turn comes. -/
theorem values?_scheduled_eq_shallow :
    Registry.withoutProviders.IsLocal ∧ (build shallow).deepReads = [] ∧
      ((evaluating shallow .withoutProviders .default .empty).scheduled
        (.turn 1 :: .replicate 7 (.turn 0))).tasks = [] ∧
      ((evaluating shallow .withoutProviders .default .empty).scheduled
        ([.turn 6, .turn 5, .turn 4] ++ .replicate 5 (.turn 0))).tasks = [] ∧
      ((evaluating shallow .withoutProviders .default .empty).scheduled
          (.turn 1 :: .replicate 7 (.turn 0))).tree.values? ⟨4, 0⟩ =
        ((evaluating shallow .withoutProviders .default .empty).scheduled
          ([.turn 6, .turn 5, .turn 4] ++ .replicate 5 (.turn 0))).tree.values? ⟨4, 0⟩ ∧
      ((build shallow).isLive ⟨4, 0⟩ = true →
        ((evaluating shallow .withoutProviders .default .empty).scheduled
          (.turn 1 :: .replicate 7 (.turn 0))).tree.isResolved ⟨4, 0⟩ = true) := by
  have hDeep : (build shallow).deepReads = [] := by
    rw [build_shallow]
    rfl
  have hFirst : ((evaluating shallow .withoutProviders .default .empty).scheduled
      (.turn 1 :: .replicate 7 (.turn 0))).tasks = [] := by
    rw [evaluating, build_shallow]
    rfl
  have hSecond : ((evaluating shallow .withoutProviders .default .empty).scheduled
      ([.turn 6, .turn 5, .turn 4] ++ .replicate 5 (.turn 0))).tasks = [] := by
    rw [evaluating, build_shallow]
    rfl
  exact ⟨isLocal_withoutProviders, hDeep, hFirst, hSecond,
    values?_scheduled_eq isLocal_withoutProviders hDeep (by decide) _ _ hFirst hSecond ⟨4, 0⟩⟩

/-- A sum of a scope that points to a scope that points on to a number. -/
def deepOutline : String :=
  "- [y] 5\n- [x] \x7b#[y]\x7d\n- [r] \x7bSum()\x7d\n  - [s] \x7b#[x]\x7d\n"

def deep : Document :=
  ⟨"root", [⟨"root", "", ["y", "x", "r"]⟩, ⟨"y", "5", []⟩, ⟨"x", "\x7b#[y]\x7d", []⟩,
    ⟨"r", "\x7bSum()\x7d", ["s"]⟩, ⟨"s", "\x7b#[x]\x7d", []⟩], 0⟩

def deepBlueprint : Blueprint :=
  .scope "root" ⟨none, [], ⟨0, 0, 1, 1⟩⟩
    [five, pointer,
      .scope "r" ⟨none, [.inline ⟨0, 7, 1, 1⟩ (.call ⟨1, 6, 1, 2⟩ "Sum" [])], ⟨0, 7, 1, 1⟩⟩
        [.scope "s" (pointing "x") [] [pointer]] []] []

theorem build_deep : build deep = planted deepBlueprint := build_eq (by cbv)

/-- The sum is 5 if every evaluation takes its turn in order, and 0 if the sum goes on before the
number that it reaches in the end is known: nobody waits for that one. -/
theorem values?_depend_on_schedule :
    Document.ofOutline .start deepOutline.toList = .ok (deep, .start) ∧
      ((evaluating deep .withoutProviders .default .empty).scheduled
        (.replicate 9 (.turn 0))).tasks = [] ∧
      ((evaluating deep .withoutProviders .default .empty).scheduled
        ([.turn 1, .turn 1, .turn 1, .turn 5] ++ .replicate 5 (.turn 0))).tasks = [] ∧
      ((evaluating deep .withoutProviders .default .empty).scheduled
        (.replicate 9 (.turn 0))).tree.values? ⟨4, 0⟩ = some [.number 5] ∧
      ((evaluating deep .withoutProviders .default .empty).scheduled
        ([.turn 1, .turn 1, .turn 1, .turn 5] ++ .replicate 5 (.turn 0))).tree.values? ⟨4, 0⟩ =
          some [.number 0] ∧
      (5 : Float) ≠ 0 := by
  refine ⟨by cbv, ?_, ?_, ?_, ?_, by decide⟩ <;> rw [evaluating, build_deep] <;> rfl

end Session

end FormulaOutline
