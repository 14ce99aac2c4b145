import FormulaOutline.Proofs.Session.Progress
import FormulaOutline.Proofs.Session.Schedules

/-!
# What the evaluations end in

Whatever a document says, its evaluations end, and then every scope has its values: nothing waits for
ever, whatever waits for what.

* `IsQuiet`: no step is left. What is under way can go on or has a deadline ahead
  (`exists_deadline`), so that nothing is under way then (`IsQuiet.tasks_eq`).
* `Covered`: the invariant. For every scope that has been started and has no values an evaluation is
  under way, and it still counts.
* `evaluation_ends`: the runs of the evaluations of a document have a common bound, and all scopes have
  their values in the end.
-/

namespace FormulaOutline

open Process Relation ScopeTree

namespace Session

variable {s s' : Session}

/-! ## When nothing can happen any more -/

/-- No evaluation can go on, nothing is left to be delivered, and no deadline is ahead. -/
def IsQuiet (s : Session) : Prop := ∀ s', ¬ Step s s'

mutual

/-- What has not ended and cannot go on waits for a deadline. -/
theorem exists_deadline : (p : Process) → p.goesOn s = false → p.value? = none →
    ∃ time ∈ p.deadlines, s.clock < time
  | .done v, _, hValue => nomatch hValue
  | .waiting id deadline next, hGoes, _ => by
    have hLater : s.clock < deadline := by
      rw [goesOn, Bool.or_eq_false_iff] at hGoes
      simpa using hGoes.2
    exact ⟨deadline, by simp [deadlines], hLater⟩
  | .sleeping deadline next, hGoes, _ => by
    have hLater : s.clock < deadline := by simpa [goesOn] using hGoes
    exact ⟨deadline, by simp [deadlines], hLater⟩
  | .gather parts next, hGoes, _ => by
    rw [goesOn, Bool.or_eq_false_iff, Option.isSome_eq_false_iff, Option.isNone_iff_eq_none] at hGoes
    obtain ⟨time, hTime, hLater⟩ := exists_deadlineOf parts hGoes.1 hGoes.2
    exact ⟨time, by rwa [deadlines], hLater⟩
  | .look _, hGoes, _ => nomatch hGoes
  | .await _ _, hGoes, _ => nomatch hGoes
  | .sleep _ _, hGoes, _ => nomatch hGoes
  | .publish _ _ _ _, hGoes, _ => nomatch hGoes
  | .consult _ _, hGoes, _ => nomatch hGoes

theorem exists_deadlineOf : (ps : List Process) → anyGoesOn s ps = false →
    Process.values? ps = none → ∃ time ∈ deadlinesOf ps, s.clock < time
  | [], _, hValues => nomatch hValues
  | p :: rest, hGoes, hValues => by
    rw [anyGoesOn, Bool.or_eq_false_iff] at hGoes
    rw [deadlinesOf]
    cases hValue : p.value? with
    | none =>
      obtain ⟨time, hTime, hLater⟩ := exists_deadline p hGoes.1 hValue
      exact ⟨time, List.mem_append_left _ hTime, hLater⟩
    | some v =>
      have hRest : Process.values? rest = none := by
        cases hRest : Process.values? rest with
        | none => rfl
        | some values =>
          rw [values?_eq_some_iff] at hRest
          rw [value?_eq_some_iff] at hValue
          have hAll := values?_eq_some_iff.2 (rfl : (v :: values).map Process.done = _)
          rw [hValue, hRest, ← List.map_cons, hAll] at hValues
          cases hValues
      obtain ⟨time, hTime, hLater⟩ := exists_deadlineOf rest hGoes.2 hRest
      exact ⟨time, List.mem_append_right _ hTime, hLater⟩

end

theorem IsQuiet.tasks_eq (h : s.IsQuiet) : s.tasks = [] := by
  have hAsleep : ∀ t ∈ s.tasks, t.isAwake s = false := by
    intro t ht
    obtain ⟨place, hPlace⟩ := List.mem_iff_getElem?.1 ht
    by_contra hAwake
    exact h _ (.turn hPlace (by simpa using hAwake))
  have hDelivered : s.listening = true → s.notices = [] := by
    intro hListening
    by_contra hNotices
    exact h _ (.deliver hListening hNotices)
  have hTime : s.ahead.min? = none := by
    rw [ahead_min?]
    cases hTime : s.nextDeadline? (.done .undefined) with
    | none => rfl
    | some time => exact (h _ (.deadline hAsleep hDelivered hTime)).elim
  rw [List.min?_eq_none_iff] at hTime
  by_contra hTasks
  obtain ⟨t, ht⟩ := List.exists_mem_of_ne_nil _ hTasks
  have hThis := hAsleep t ht
  rw [Task.isAwake, Bool.or_eq_false_iff, Option.isSome_eq_false_iff,
    Option.isNone_iff_eq_none] at hThis
  obtain ⟨time, hDeadline, hLater⟩ := exists_deadlineOf t.parts hThis.1 hThis.2
  have hMem : time ∈ s.ahead :=
    List.mem_filter.2 ⟨List.mem_flatMap.2 ⟨t, ht, hDeadline⟩, by simpa using hLater⟩
  rw [hTime] at hMem
  cases hMem

/-- Every run can be led to its end. -/
theorem exists_quiet (s : Session) : ∃ last, ReflTransGen Step s last ∧ last.IsQuiet := by
  induction s using wellFounded_step.induction with
  | h s ih =>
    by_cases hStep : ∃ s', Step s s'
    · obtain ⟨s', hStep⟩ := hStep
      obtain ⟨last, hRun, hQuiet⟩ := ih s' hStep
      exact ⟨last, .head hStep hRun, hQuiet⟩
    · exact ⟨s, .refl, fun s' h => hStep ⟨s', h⟩⟩

/-! ## Evaluations that count -/

/-- With some evaluations in hand beside those under way: each of them counts, and every scope that
has been started and has no values has one. -/
structure Covered (held : List Task) (s : Session) : Prop where
  enabled : ∀ x r, s.tree.record? x = some r → r.disabled = false
  current : ∀ t ∈ held ++ s.tasks, ∃ r, s.tree.record? t.run.scope = some r ∧
    r.epoch = t.run.epoch ∧ r.state.isIdle = false
  pending : ∀ x r, s.tree.record? x = some r → r.state.isIdle = false → r.state.values? = none →
    ∃ t ∈ held ++ s.tasks, t.run.scope = x

variable {held : List Task}

theorem Covered.start (h : Covered held s) (x : ScopeId) :
    Covered held (s.start x false).2 := by
  rcases start_cases s x false with hSame | ⟨r, hr, -, hIdle, hStart⟩
  · rwa [hSame]
  · have hIdle : r.state.isIdle = true := by simpa using hIdle
    rw [hStart]
    constructor
    · intro y r' hr'
      obtain ⟨r'', hr'', ⟨-, rfl⟩ | ⟨-, rfl⟩⟩ := exists_of_record?_modify hr'
      · exact h.enabled y _ hr''
      · exact h.enabled y r'' hr''
    · intro t ht
      dsimp only at ht ⊢
      rw [← List.append_assoc, List.mem_append, List.mem_singleton] at ht
      rcases ht with ht | rfl
      · obtain ⟨r', hr', hEpoch, hBegun⟩ := h.current t ht
        refine ⟨r', ?_, hEpoch, hBegun⟩
        rw [record?_modify, if_neg]
        · exact hr'
        · rintro hScope
          rw [hScope, hr] at hr'
          obtain rfl := Option.some.inj hr'
          simp [hIdle] at hBegun
      · refine ⟨begun r, ?_, rfl, not_idle_begun r⟩
        rw [record?_modify, if_pos rfl, hr]
        rfl
    · intro y r' hr' hBegun hNone
      dsimp only
      obtain ⟨r'', hr'', ⟨-, rfl⟩ | ⟨rfl, -⟩⟩ := exists_of_record?_modify hr'
      · obtain ⟨t, ht, hScope⟩ := h.pending y _ hr'' hBegun hNone
        exact ⟨t, by rw [← List.append_assoc]; exact List.mem_append_left _ ht, hScope⟩
      · exact ⟨_, List.mem_append_right _ (List.mem_append_right _ (List.mem_singleton_self _)), rfl⟩

theorem Covered.publish (h : Covered held s) (run : Option Publisher) (target : ScopeId)
    (name : String) (data : Value) : Covered held (s.publish run target name data) := by
  rcases publish_cases s run target name data with ⟨-, hSame⟩ | ⟨result, -, hTree, hTasks, -⟩
  · rwa [hSame]
  · have hRecord : ∀ x r, (s.publish run target name data).tree.record? x = some r →
        ∃ r', s.tree.record? x = some r' ∧ r.disabled = r'.disabled ∧ r.state = r'.state := by
      intro x r hr
      rw [hTree] at hr
      obtain ⟨r', hr', ⟨-, rfl⟩ | ⟨-, rfl⟩⟩ := exists_of_record?_modify hr
      · exact ⟨_, hr', rfl, rfl⟩
      · exact ⟨_, hr', rfl, rfl⟩
    constructor
    · intro x r hr
      obtain ⟨r', hr', hDisabled, -⟩ := hRecord x r hr
      rw [hDisabled, h.enabled x r' hr']
    · intro t ht
      rw [hTasks] at ht
      obtain ⟨r, hr, hEpoch, hBegun⟩ := h.current t ht
      rw [hTree, record?_modify]
      split
      · rename_i hScope
        rw [← hScope, hr]
        exact ⟨withResult result r, rfl, hEpoch, hBegun⟩
      · exact ⟨r, hr, hEpoch, hBegun⟩
    · intro x r hr hBegun hNone
      obtain ⟨r', hr', -, hState⟩ := hRecord x r hr
      rw [hTasks]
      exact h.pending x r' hr' (hState ▸ hBegun) (hState ▸ hNone)

theorem carried_covered (held : List Task) : Carried (Covered held) where
  listen _ h := ⟨h.enabled, h.current, h.pending⟩
  start _ x h := h.start x
  publish _ run target name data h := h.publish run target name data
  ask _ _ h := ⟨h.enabled, h.current, h.pending⟩

/-- The evaluation in hand ends. -/
theorem Covered.complete {t : Task} (h : Covered [t] s) (values : List Value) :
    Covered [] (s.complete t.run values) := by
  obtain ⟨r, hr, hEpoch, hBegun⟩ := h.current t (List.mem_cons_self ..)
  have hCurrent : s.isCurrent t.run = true :=
    isCurrent_iff.2 ⟨r, hr, hEpoch, h.enabled _ r hr⟩
  rcases complete_cases s t.run values with ⟨hNot, -⟩ | ⟨-, hTree, hTasks, -⟩
  · rw [hCurrent] at hNot
    cases hNot
  · constructor
    · intro x r' hr'
      rw [hTree] at hr'
      obtain ⟨r'', hr'', ⟨-, rfl⟩ | ⟨-, rfl⟩⟩ := exists_of_record?_modify hr'
      · exact h.enabled x _ hr''
      · exact h.enabled x r'' hr''
    · intro t' ht'
      rw [hTasks] at ht'
      obtain ⟨r', hr', hEpoch', hBegun'⟩ := h.current t' (List.mem_cons_of_mem _ ht')
      rw [hTree, record?_modify]
      split
      · rename_i hScope
        rw [← hScope, hr']
        exact ⟨_, rfl, hEpoch', rfl⟩
      · exact ⟨r', hr', hEpoch', hBegun'⟩
    · intro x r' hr' hBegun' hNone
      rw [hTree] at hr'
      obtain ⟨r'', hr'', ⟨hOther, rfl⟩ | ⟨-, rfl⟩⟩ := exists_of_record?_modify hr'
      · obtain ⟨t', ht', hScope⟩ := h.pending x _ hr'' hBegun' hNone
        rw [hTasks]
        rcases List.mem_cons.1 ht' with rfl | ht'
        · exact (hOther hScope.symm).elim
        · exact ⟨t', ht', hScope⟩
      · cases hNone

theorem Covered.step (h : Covered [] s) (hStep : Step s s') : Covered [] s' := by
  cases hStep with
  | @turn place t hTask _ =>
    obtain ⟨hPlace, rfl⟩ := List.getElem?_eq_some_iff.1 hTask
    have hMem : ∀ t, t ∈ s.tasks[place] :: s.tasks.eraseIdx place ↔ t ∈ s.tasks :=
      fun _ => (List.getElem_cons_eraseIdx_perm hPlace).mem_iff
    have hHeld : Covered [s.tasks[place]] { s with tasks := s.tasks.eraseIdx place } := by
      refine ⟨h.enabled, fun t ht => h.current t ((hMem t).1 ht), fun x r hr hBegun hNone => ?_⟩
      obtain ⟨t, ht, hScope⟩ := h.pending x r hr hBegun hNone
      exact ⟨t, (hMem t).2 ht, hScope⟩
    have hPolled := (carried_covered [s.tasks[place]]).pollAll (some s.tasks[place].run)
      s.tasks[place].parts _ hHeld
    rw [turn]
    dsimp only
    split
    · exact hPolled.complete _
    · rename_i hNone
      set polled := pollAll (some s.tasks[place].run) s.tasks[place].parts
        { s with tasks := s.tasks.eraseIdx place } with hEq
      refine ⟨hPolled.enabled, fun t ht => ?_, fun x r hr hBegun hNone => ?_⟩
      · rw [List.nil_append, List.mem_append, List.mem_singleton] at ht
        rcases ht with ht | rfl
        · exact hPolled.current t (List.mem_cons_of_mem _ ht)
        · exact hPolled.current s.tasks[place] (List.mem_cons_self ..)
      · obtain ⟨t, ht, hScope⟩ := hPolled.pending x r hr hBegun hNone
        rcases List.mem_cons.1 ht with rfl | ht
        · exact ⟨⟨s.tasks[place].run, polled.1⟩, by simp, hScope⟩
        · exact ⟨t, by simpa using .inl ht, hScope⟩
  | deliver _ _ =>
    rcases deliverNext_cases s with hSame | ⟨notice, rest, -, -, hNext⟩
    · rwa [hSame]
    · rw [hNext]
      exact ⟨h.enabled, h.current, h.pending⟩
  | deadline _ _ _ => exact ⟨h.enabled, h.current, h.pending⟩

/-! ## The evaluations of a document -/

variable {d : Document} {functions : Registry} {config : EngineConfig} {providers : Directory}

theorem covered_evaluating : Covered [] (evaluating d functions config providers) := by
  have hFresh : ∀ x r, (build d).record? x = some r → r.shape = r := fun x r hr => shape_build d hr
  refine (carried_covered []).startAll ⟨fun x r hr => ?_, by simp [ofTree], fun x r hr hBegun => ?_⟩ _
  · rw [← hFresh x r hr]
    rfl
  · rw [← hFresh x r hr] at hBegun
    cases hBegun

theorem idle_evaluating : (evaluating d functions config providers).idle = ∅ := by
  rw [Finset.eq_empty_iff_forall_notMem]
  intro x hx
  obtain ⟨r, hr, hIdle⟩ := mem_idle.1 hx
  obtain ⟨r', -, rfl⟩ := exists_of_record?_evaluating hr
  rw [not_idle_begun] at hIdle
  cases hIdle

/-- Evaluating a document ends after a bounded number of steps, in whatever order they are taken. As
long as it has not ended it can go on, and when no step is left, nothing is under way and every scope
has its values. -/
theorem evaluation_ends (d : Document) (functions : Registry) (config : EngineConfig)
    (providers : Directory) :
    (∃ bound, ∀ run : List Session,
      (evaluating d functions config providers :: run).IsChain Step → run.length ≤ bound) ∧
    ∀ s, ReflTransGen Step (evaluating d functions config providers) s →
      (∃ last, ReflTransGen Step s last ∧ last.IsQuiet) ∧
      (s.IsQuiet → s.tasks = [] ∧
        ∀ x r, s.tree.record? x = some r → r.state.isResolved = true) := by
  refine ⟨exists_bound _, fun s hRun => ⟨exists_quiet s, fun hQuiet => ?_⟩⟩
  have hRun : Covered [] s ∧ s.idle = ∅ := by
    clear hQuiet
    induction hRun with
    | refl => exact ⟨covered_evaluating, idle_evaluating⟩
    | tail _ hStep ih =>
      exact ⟨ih.1.step hStep, Finset.subset_empty.1 (ih.2 ▸ hStep.idle_subset)⟩
  refine ⟨hQuiet.tasks_eq, fun x r hr => ?_⟩
  by_contra hResolved
  have hNone : r.state.values? = none := by simpa [EvalState.isResolved] using hResolved
  have hBegun : r.state.isIdle = false := by
    by_contra hIdle
    have hMem := mem_idle.2 ⟨r, hr, by simpa using hIdle⟩
    rw [hRun.2] at hMem
    simp at hMem
  obtain ⟨t, ht, -⟩ := hRun.1.pending x r hr hBegun hNone
  rw [hQuiet.tasks_eq] at ht
  cases ht

end Session

end FormulaOutline
