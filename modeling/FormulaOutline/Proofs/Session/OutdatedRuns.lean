import FormulaOutline.Proofs.Session.History

/-!
# Runs that no longer count

A run of an evaluation counts until a later run of its scope starts, or the scope is disabled or
dropped. From then on it leaves no trace.

* `History.Tracked`: what a tree still knows of the runs and scopes of its past.
* `History.Sound`: the invariant of histories, kept by each step.
* `History.Outdated`: a run that no longer counts; it never counts again.
* `outdated_runs_leave_no_trace`: the guarantees for any events in any order.
-/

namespace FormulaOutline

open Session

namespace History

/-! ## The invariant -/

/-- What a tree knows of runs that were started and of scopes that were disabled or dropped. -/
structure Tracked (t : ScopeTree) (started : List Publisher) (disabled dropped : List ScopeId) :
    Prop where
  rooted : t.Rooted
  /-- No run is ahead of its scope, whose evaluation has begun. -/
  started : ∀ run ∈ started, t.arena.Past run.scope ∨
    ∃ r, t.record? run.scope = some r ∧ run.epoch ≤ r.epoch ∧ 0 < r.state.phase
  disabled : ∀ x ∈ disabled, t.arena.Past x ∨ ∃ r, t.record? x = some r ∧ r.disabled = true
  dropped : ∀ x ∈ dropped, t.arena.Past x
  filled : ∀ x r, t.record? x = some r → ∀ values, r.state = .resolved values →
    values.length = r.bullet.parts.length

theorem Tracked.steps {t t' : ScopeTree} {started : List Publisher}
    {disabled dropped : List ScopeId} (h : Tracked t started disabled dropped)
    (hs : t.Steps t') (hrooted : t'.Rooted) :
    Tracked t' started disabled dropped where
  rooted := hrooted
  started := by
    intro run hrun
    rcases h.started run hrun with hp | ⟨r, hr, hepoch, hphase⟩
    · exact Or.inl (hp.mono hs.generation)
    · rcases hs.kept _ r hr with hp | ⟨r', hr', hrr⟩
      · exact Or.inl hp
      · have hages := hrr.ages
        exact Or.inr ⟨r', hr', Nat.le_trans hepoch hages.epoch,
          Nat.lt_of_lt_of_le hphase hages.phase⟩
  disabled := by
    intro x hx
    rcases h.disabled x hx with hp | ⟨r, hr, hd⟩
    · exact Or.inl (hp.mono hs.generation)
    · rcases hs.kept x r hr with hp | ⟨r', hr', hrr⟩
      · exact Or.inl hp
      · exact Or.inr ⟨r', hr', hrr.disabled hd⟩
  dropped := fun x hx => (h.dropped x hx).mono hs.generation
  filled := by
    intro x r' hr' values hv
    rcases hs.born x r' hr' with ⟨r, hr⟩ | hidle
    · have hrr := hs.record hr hr'
      rw [hrr.bullet]
      rcases hrr.filled values hv with hv' | hlen
      · exact h.filled x r hr values hv'
      · exact hlen
    · rw [hidle] at hv
      cases hv

/-- The invariant of histories. -/
structure Sound (h : History) : Prop where
  tracked : Tracked h.tree h.started h.disabled h.dropped
  generation : ∀ i, h.tree.arena.generation i = Arena.uses h.dropped i
  started_nodup : h.started.Nodup
  tasks_nodup : (h.session.tasks.map Task.run).Nodup
  task_started : ∀ t ∈ h.session.tasks, t.run ∈ h.started
  task_open : ∀ t ∈ h.session.tasks, t.run ∉ h.stored
  task_parts : ∀ t ∈ h.session.tasks, ∀ r, h.tree.record? t.run.scope = some r →
    t.parts.length = r.bullet.parts.length
  stored_started : ∀ run ∈ h.stored, run ∈ h.started
  stored_rising : h.stored.Pairwise fun a b => a.scope = b.scope → a.epoch < b.epoch

variable {h : History}

/-- A started run of a live scope is not ahead of it. -/
theorem Sound.epoch_le (hh : h.Sound) {run : Publisher} (hrun : run ∈ h.started) {r : ScopeRecord}
    (hr : h.tree.record? run.scope = some r) : run.epoch ≤ r.epoch ∧ 0 < r.state.phase := by
  rcases hh.tracked.started run hrun with hp | ⟨r', hr', hle⟩
  · rw [show h.tree.record? run.scope = none from hp.get?_eq_none] at hr
    cases hr
  · rw [hr] at hr'
    cases hr'
    exact hle

/-- The parts of an evaluation under way are those of its scope also after a change of the tree. -/
theorem Sound.parts_of_steps (hh : h.Sound) {t' : ScopeTree} (hs : h.tree.Steps t') {t : Task}
    (ht : t ∈ h.session.tasks) {r' : ScopeRecord} (hr' : t'.record? t.run.scope = some r') :
    t.parts.length = r'.bullet.parts.length := by
  rcases hh.tracked.started t.run (hh.task_started t ht) with hp | ⟨r, hr, -⟩
  · rw [show t'.record? t.run.scope = none from (hp.mono hs.generation).get?_eq_none] at hr'
    cases hr'
  · rw [(hs.record hr hr').bullet]
    exact hh.task_parts t ht r hr

/-! ## The changes of the tree -/

theorem steps_begun {t : ScopeTree} (id : ScopeId) : t.Steps (t.modify id begun) := by
  refine ScopeTree.steps_modify fun r _ => ?_
  have hmoves : r.state.Moves (begun r).state ∧ ∀ values, (begun r).state = .resolved values →
      r.state = .resolved values := by
    rw [begun]
    cases r.state with
    | idle => exact ⟨.begin, by simp [EvalState.isIdle]⟩
    | pending => exact ⟨.stay _, by simp [EvalState.isIdle]⟩
    | resolved values => exact ⟨.stay _, by simp [EvalState.isIdle]⟩
  exact ⟨rfl, Nat.le_succ _, fun hd => hd, hmoves.1, fun values hv => Or.inl (hmoves.2 values hv)⟩

theorem steps_withResult {t : ScopeTree} (id : ScopeId) (result : ComputationResult) :
    t.Steps (t.modify id (withResult result)) :=
  ScopeTree.steps_modify fun _ _ =>
    ⟨rfl, Nat.le_refl _, fun hd => hd, .stay _, fun _ hv => Or.inl hv⟩

/-- Each event is one change of the tree. -/
theorem Sound.steps (hh : h.Sound) (e : Event) (hwrap : (h.step e).Unwrapped) :
    h.tree.Steps (h.step e).tree := by
  cases e with
  | start id force =>
    rcases step_start h id force with he | ⟨r, -, -, htree, -⟩
    · rw [he]
      exact .refl _
    · rw [htree]
      exact steps_begun id
  | complete place values =>
    rcases step_complete h place values with he | ⟨t, ht, hlen, -, -, -, -, hcase⟩
    · rw [he]
      exact .refl _
    · rcases hcase with ⟨-, htree, -⟩ | ⟨-, htree, -⟩
      · rw [htree]
        exact .refl _
      · rw [htree]
        refine ScopeTree.steps_modify fun r hr => ?_
        have hmem := List.mem_of_getElem? ht
        have hparts := hh.task_parts t hmem r hr
        have hphase := (hh.epoch_le (hh.task_started t hmem) hr).2
        refine ⟨rfl, Nat.le_refl _, fun hd => hd, ?_, ?_⟩
        · cases hs : r.state with
          | idle =>
            rw [hs] at hphase
            exact (Nat.lt_irrefl _ hphase).elim
          | pending => exact .finish values
          | resolved values' => exact .again values' values
        · intro values' hv
          cases hv
          exact Or.inr (hlen.trans hparts)
  | publish run target name data =>
    rcases step_publish h run target name data with he | ⟨result, -, htree, -⟩
    · rw [he]
      exact .refl _
    · rw [htree]
      exact steps_withResult target result
  | disable id =>
    rw [(step_disable h id).1]
    exact ScopeTree.steps_disable hh.tracked.rooted id
  | rebuild id d =>
    rcases step_rebuild h id d with he | ⟨new, gone, hrebuild, -, -, -, -, hdropped⟩
    · rw [he]
      exact .refl _
    · refine ScopeTree.steps_rebuild hh.tracked.rooted hrebuild fun i => ?_
      have hi := hwrap i
      rwa [hdropped, Arena.uses_append, ← hh.generation] at hi

/-! ## The invariant is kept -/

theorem sound_start (d : Document) (functions : Registry) (config : EngineConfig)
    (providers : Directory) : (start (ofTree (.build d) functions config providers)).Sound where
  tracked :=
    { rooted := ScopeTree.rooted_build d
      started := by simp [start]
      disabled := by simp [start]
      dropped := by simp [start]
      filled := by
        intro x r hr values hv
        have hfresh := ScopeTree.state_build d hr
        rw [hfresh] at hv
        cases hv }
  generation := ScopeTree.generation_build d
  started_nodup := List.nodup_nil
  tasks_nodup := List.nodup_nil
  task_started := by simp [start, ofTree]
  task_open := by simp [start, ofTree]
  task_parts := by simp [start, ofTree]
  stored_started := by simp [start]
  stored_rising := .nil

/-- A change of the tree that starts no run keeps the invariant. -/
theorem Sound.of_steps (hh : h.Sound) {h' : History} (hs : h.tree.Steps h'.tree)
    (htracked : Tracked h'.tree h'.started h'.disabled h'.dropped)
    (hgen : ∀ i, h'.tree.arena.generation i = Arena.uses h'.dropped i)
    (hstarted : h'.started = h.started)
    (htasks : h'.session.tasks.Sublist h.session.tasks)
    (hopen : ∀ t ∈ h'.session.tasks, t.run ∉ h'.stored)
    (hstored : ∀ run ∈ h'.stored, run ∈ h.started)
    (hrising : h'.stored.Pairwise fun a b => a.scope = b.scope → a.epoch < b.epoch) : h'.Sound where
  tracked := htracked
  generation := hgen
  started_nodup := hstarted ▸ hh.started_nodup
  tasks_nodup := hh.tasks_nodup.sublist (htasks.map Task.run)
  task_started := fun t ht => hstarted ▸ hh.task_started t (htasks.subset ht)
  task_open := hopen
  task_parts := fun _ ht _ hr => hh.parts_of_steps hs (htasks.subset ht) hr
  stored_started := fun run hrun => hstarted ▸ hstored run hrun
  stored_rising := hrising

/-- The run that a scope starts next has not been started before. -/
theorem Sound.next_not_started (hh : h.Sound) {id : ScopeId} {r : ScopeRecord}
    (hr : h.tree.record? id = some r) : (⟨id, r.epoch + 1⟩ : Publisher) ∉ h.started := by
  intro hmem
  have hle : r.epoch + 1 ≤ r.epoch := (hh.epoch_le hmem hr).1
  omega

/-- An evaluation has as many parts as the bullet of its scope. -/
theorem length_partsOf {t : ScopeTree} (ht : t.Rooted) (functions : Registry) {id : ScopeId}
    {r : ScopeRecord} (hr : t.record? id = some r) :
    (partsOf functions id r).length = r.bullet.parts.length := by
  rw [partsOf]
  split
  · rename_i hp
    rw [((ht.linked id r hr).blank hp).1]
    rfl
  · exact List.length_map _

theorem Sound.step_start (hh : h.Sound) (id : ScopeId) (force : Bool)
    (hwrap : (h.step (.start id force)).Unwrapped) : (h.step (.start id force)).Sound := by
  have hs := hh.steps (.start id force) hwrap
  have hrooted : (h.step (.start id force)).tree.Rooted := rooted_apply hh.tracked.rooted _
  rcases History.step_start h id force with
    he | ⟨r, hr, -, htree, htasks, hstarted, hstored, hdisabled, hdropped⟩
  · rw [he]
    exact hh
  · generalize h.step (.start id force) = h' at *
    have hr' : h'.tree.record? id = some (begun r) := by
      rw [htree, ScopeTree.record?_modify, if_pos rfl, hr, Option.map_some]
    have hnew := hh.next_not_started hr
    have htracked := hh.tracked.steps hs hrooted
    refine
      { tracked := ?_
        generation := ?_
        started_nodup := ?_
        tasks_nodup := ?_
        task_started := ?_
        task_open := ?_
        task_parts := ?_
        stored_started := ?_
        stored_rising := hstored ▸ hh.stored_rising }
    · rw [hstarted, hdisabled, hdropped]
      refine ⟨hrooted, ?_, htracked.disabled, htracked.dropped, htracked.filled⟩
      intro run hrun
      rcases List.mem_append.mp hrun with hrun | hrun
      · exact htracked.started run hrun
      · obtain rfl := List.mem_singleton.mp hrun
        refine Or.inr ⟨begun r, hr', Nat.le_refl _, ?_⟩
        rw [EvalState.phase_pos_iff, begun]
        cases r.state <;> rfl
    · intro i
      rw [hdropped, ← hh.generation, htree]
      exact congrFun (Arena.generation_modify _ _ _) i
    · rw [hstarted]
      refine List.nodup_append.mpr ⟨hh.started_nodup, List.nodup_singleton _, ?_⟩
      rintro a ha b hb rfl
      exact hnew (List.mem_singleton.mp hb ▸ ha)
    · rw [htasks, List.map_append]
      refine List.nodup_append.mpr ⟨hh.tasks_nodup, List.nodup_singleton _, ?_⟩
      rintro a ha b hb rfl
      obtain ⟨t, ht, hrun⟩ := List.mem_map.mp ha
      have hmem := hh.task_started t ht
      rw [hrun.trans (List.mem_singleton.mp hb)] at hmem
      exact hnew hmem
    · rw [htasks, hstarted]
      intro t ht
      rcases List.mem_append.mp ht with ht | ht
      · exact List.mem_append_left _ (hh.task_started t ht)
      · obtain rfl := List.mem_singleton.mp ht
        exact List.mem_append_right _ (List.mem_singleton_self _)
    · rw [htasks, hstored]
      intro t ht
      rcases List.mem_append.mp ht with ht | ht
      · exact hh.task_open t ht
      · obtain rfl := List.mem_singleton.mp ht
        exact fun hmem => hnew (hh.stored_started _ hmem)
    · rw [htasks]
      intro t ht s hs'
      rcases List.mem_append.mp ht with ht | ht
      · exact hh.parts_of_steps hs ht hs'
      · obtain rfl := List.mem_singleton.mp ht
        obtain rfl : begun r = s := Option.some.inj (hr'.symm.trans hs')
        exact length_partsOf hh.tracked.rooted h.session.functions hr
    · rw [hstored, hstarted]
      exact fun run hrun => List.mem_append_left _ (hh.stored_started run hrun)

/-- The run that ends is not among those that go on. -/
theorem Sound.run_ne_of_mem_eraseIdx (hh : h.Sound) {place : Nat} {t t' : Task}
    (ht : h.session.tasks[place]? = some t) (ht' : t' ∈ h.session.tasks.eraseIdx place) :
    t'.run ≠ t.run := by
  intro heq
  obtain ⟨j, hj, hne, rfl⟩ := List.mem_eraseIdx_iff_getElem.mp ht'
  obtain ⟨hp, rfl⟩ := List.getElem?_eq_some_iff.mp ht
  have hinj := List.nodup_iff_injective_getElem.mp hh.tasks_nodup
  refine hne (congrArg Fin.val (@hinj ⟨j, by simpa using hj⟩ ⟨place, by simpa using hp⟩ ?_))
  simpa using heq

/-- The runs whose values a scope has stored are older than one that is under way and current. -/
theorem Sound.stored_lt_current (hh : h.Sound) {t : Task} (ht : t ∈ h.session.tasks)
    (hcurrent : h.session.isCurrent t.run = true) {run : Publisher} (hrun : run ∈ h.stored)
    (hscope : run.scope = t.run.scope) : run.epoch < t.run.epoch := by
  obtain ⟨r, hr, hepoch, -⟩ := isCurrent_iff.mp hcurrent
  rw [← hscope] at hr
  have hle := (hh.epoch_le (hh.stored_started run hrun) hr).1
  have hne : run.epoch ≠ t.run.epoch := by
    intro heq
    have hsame : run = t.run := by
      cases run
      cases hrun' : t.run
      simp_all
    exact hh.task_open t ht (hsame ▸ hrun)
  omega

theorem Sound.step_complete (hh : h.Sound) (place : Nat) (values : List Value)
    (hwrap : (h.step (.complete place values)).Unwrapped) :
    (h.step (.complete place values)).Sound := by
  have hs := hh.steps (.complete place values) hwrap
  have hrooted : (h.step (.complete place values)).tree.Rooted := rooted_apply hh.tracked.rooted _
  have htracked := hh.tracked.steps hs hrooted
  rcases History.step_complete h place values with
    he | ⟨t, ht, -, htasks, hstarted, hdisabled, hdropped, hcase⟩
  · rw [he]
    exact hh
  · generalize h.step (.complete place values) = h' at *
    have hsub : h'.session.tasks.Sublist h.session.tasks := htasks ▸ List.eraseIdx_sublist _ _
    have htracked' : Tracked h'.tree h'.started h'.disabled h'.dropped := by
      rwa [hstarted, hdisabled, hdropped]
    rcases hcase with ⟨-, htree, hstored⟩ | ⟨hcurrent, htree, hstored⟩
    · refine hh.of_steps hs htracked' ?_ hstarted hsub ?_ ?_ ?_
      · rw [htree, hdropped]
        exact hh.generation
      · rw [hstored]
        exact fun t' ht' => hh.task_open t' (hsub.subset ht')
      · rw [hstored]
        exact hh.stored_started
      · rw [hstored]
        exact hh.stored_rising
    · have hmem := List.mem_of_getElem? ht
      refine hh.of_steps hs htracked' ?_ hstarted hsub ?_ ?_ ?_
      · intro i
        rw [htree, hdropped, ← hh.generation]
        exact congrFun (Arena.generation_modify _ _ _) i
      · rw [hstored]
        intro t' ht' hrun
        rcases List.mem_append.mp hrun with hrun | hrun
        · exact hh.task_open t' (hsub.subset ht') hrun
        · exact hh.run_ne_of_mem_eraseIdx ht (htasks ▸ ht') (List.mem_singleton.mp hrun)
      · rw [hstored]
        intro run hrun
        rcases List.mem_append.mp hrun with hrun | hrun
        · exact hh.stored_started run hrun
        · exact List.mem_singleton.mp hrun ▸ hh.task_started t hmem
      · rw [hstored]
        refine List.pairwise_append.mpr ⟨hh.stored_rising, List.pairwise_singleton _ _, ?_⟩
        intro a ha b hb hscope
        obtain rfl := List.mem_singleton.mp hb
        exact hh.stored_lt_current hmem hcurrent ha hscope

theorem Sound.step_publish (hh : h.Sound) (run : Option Publisher) (target : ScopeId)
    (name : String) (data : Value)
    (hwrap : (h.step (.publish run target name data)).Unwrapped) :
    (h.step (.publish run target name data)).Sound := by
  have hs := hh.steps (.publish run target name data) hwrap
  have hrooted : (h.step (.publish run target name data)).tree.Rooted :=
    rooted_apply hh.tracked.rooted _
  have htracked := hh.tracked.steps hs hrooted
  rcases History.step_publish h run target name data with
    he | ⟨result, -, htree, htasks, hstarted, hstored, hdisabled, hdropped⟩
  · rw [he]
    exact hh
  · generalize h.step (.publish run target name data) = h' at *
    refine hh.of_steps hs (by rwa [hstarted, hdisabled, hdropped]) ?_ hstarted
      (htasks ▸ List.Sublist.refl _) ?_ ?_ ?_
    · intro i
      rw [htree, hdropped, ← hh.generation]
      exact congrFun (Arena.generation_modify _ _ _) i
    · rw [htasks, hstored]
      exact hh.task_open
    · rw [hstored]
      exact hh.stored_started
    · rw [hstored]
      exact hh.stored_rising

theorem Sound.step_disable (hh : h.Sound) (id : ScopeId)
    (hwrap : (h.step (.disable id)).Unwrapped) : (h.step (.disable id)).Sound := by
  have hs := hh.steps (.disable id) hwrap
  have hrooted : (h.step (.disable id)).tree.Rooted := rooted_apply hh.tracked.rooted _
  have htracked := hh.tracked.steps hs hrooted
  obtain ⟨htree, htasks, hstarted, hstored, hdisabled, hdropped⟩ := History.step_disable h id
  generalize h.step (.disable id) = h' at *
  refine hh.of_steps hs ?_ ?_ hstarted (htasks ▸ List.Sublist.refl _) ?_ ?_ ?_
  · rw [hstarted, hdisabled, hdropped]
    refine ⟨hrooted, htracked.started, ?_, htracked.dropped, htracked.filled⟩
    intro x hx
    rcases List.mem_append.mp hx with hx | hx
    · exact htracked.disabled x hx
    · rw [htree]
      exact Or.inr (ScopeTree.disabled_of_mem hh.tracked.rooted hx)
  · intro i
    rw [htree, hdropped, ← hh.generation]
    exact congrFun (ScopeTree.generation_modifyAll _ _) i
  · rw [htasks, hstored]
    exact hh.task_open
  · rw [hstored]
    exact hh.stored_started
  · rw [hstored]
    exact hh.stored_rising

theorem Sound.step_rebuild (hh : h.Sound) (id : ScopeId) (d : Document)
    (hwrap : (h.step (.rebuild id d)).Unwrapped) : (h.step (.rebuild id d)).Sound := by
  have hs := hh.steps (.rebuild id d) hwrap
  have hrooted : (h.step (.rebuild id d)).tree.Rooted := rooted_apply hh.tracked.rooted _
  have htracked := hh.tracked.steps hs hrooted
  rcases History.step_rebuild h id d with
    he | ⟨new, gone, hrebuild, htasks, hstarted, hstored, hdisabled, hdropped⟩
  · rw [he]
    exact hh
  · generalize h.step (.rebuild id d) = h' at *
    have hwrap' : ∀ i, h.tree.arena.generation i + Arena.uses gone i < 2 ^ 32 := by
      intro i
      have hi := hwrap i
      rwa [hdropped, Arena.uses_append, ← hh.generation] at hi
    refine hh.of_steps hs ?_ ?_ hstarted (htasks ▸ List.Sublist.refl _) ?_ ?_ ?_
    · rw [hstarted, hdisabled, hdropped]
      refine ⟨hrooted, htracked.started, htracked.disabled, ?_, htracked.filled⟩
      intro x hx
      rcases List.mem_append.mp hx with hx | hx
      · exact htracked.dropped x hx
      · exact ScopeTree.past_of_gone hh.tracked.rooted hrebuild hwrap' hx
    · intro i
      rw [ScopeTree.generation_rebuild hh.tracked.rooted hrebuild hwrap', hdropped,
        Arena.uses_append, hh.generation]
    · rw [htasks, hstored]
      exact hh.task_open
    · rw [hstored]
      exact hh.stored_started
    · rw [hstored]
      exact hh.stored_rising

/-- Every event keeps the invariant. -/
theorem Sound.step (hh : h.Sound) (e : Event) (hwrap : (h.step e).Unwrapped) :
    (h.step e).Sound := by
  cases e with
  | start id force => exact hh.step_start id force hwrap
  | complete place values => exact hh.step_complete place values hwrap
  | publish run target name data => exact hh.step_publish run target name data hwrap
  | disable id => exact hh.step_disable id hwrap
  | rebuild id d => exact hh.step_rebuild id d hwrap

theorem Sound.run (hh : h.Sound) {events : List Event} (hwrap : (h.run events).Unwrapped) :
    (h.run events).Sound := by
  induction events generalizing h with
  | nil => exact hh
  | cons e rest ih =>
    have hstep : (h.step e).Unwrapped := Unwrapped.of_run rest hwrap
    exact ih (hh.step e hstep) hwrap

/-- Over any number of events the tree only ages. -/
theorem Sound.ages (hh : h.Sound) {events : List Event} (hwrap : (h.run events).Unwrapped) :
    h.tree.Ages (h.run events).tree := by
  induction events generalizing h with
  | nil => exact .refl _
  | cons e rest ih =>
    have hstep : (h.step e).Unwrapped := Unwrapped.of_run rest hwrap
    exact (hh.steps e hstep).ages.trans (ih (hh.step e hstep) hwrap)

/-! ## Runs that no longer count -/

/-- A later run of the scope has been started, or the scope has been disabled or dropped, or its
record has gone on to another epoch. -/
def Outdated (h : History) (run : Publisher) : Prop :=
  (∃ later ∈ h.started, later.scope = run.scope ∧ run.epoch < later.epoch) ∨
    run.scope ∈ h.disabled ∨ run.scope ∈ h.dropped ∨
    ∃ r, h.tree.record? run.scope = some r ∧ r.epoch ≠ run.epoch

/-- A run that no longer counts never counts again. -/
theorem Sound.not_current_of_outdated (hh : h.Sound) {run : Publisher} (hrun : run ∈ h.started)
    (hout : h.Outdated run) {events : List Event} (hwrap : (h.run events).Unwrapped) :
    (h.run events).session.isCurrent run = false := by
  have hages := hh.ages hwrap
  rw [← Bool.not_eq_true, isCurrent_iff]
  rintro ⟨r', hr', hepoch, hdisabled⟩
  have hlive : ¬ (h.run events).tree.arena.Past run.scope := by
    intro hp
    have hnone : (h.run events).session.tree.record? run.scope = none := hp.get?_eq_none
    rw [hr'] at hnone
    cases hnone
  rcases hh.tracked.started run hrun with hp | ⟨r, hr, hle, -⟩
  · exact hlive (hp.mono hages.generation)
  · have hrr := hages.record hr hr'
    rcases hout with ⟨later, hlater, hscope, hlt⟩ | hd | hd | ⟨s, hs, hne⟩
    · have hle' := (hh.epoch_le hlater (hscope ▸ hr)).1
      have := hrr.epoch
      omega
    · rcases hh.tracked.disabled _ hd with hp | ⟨s, hs, hsd⟩
      · exact hlive (hp.mono hages.generation)
      · obtain rfl : r = s := Option.some.inj (hr.symm.trans hs)
        rw [hrr.disabled hsd] at hdisabled
        cases hdisabled
    · exact hlive ((hh.tracked.dropped _ hd).mono hages.generation)
    · obtain rfl : r = s := Option.some.inj (hr.symm.trans hs)
      have := hrr.epoch
      omega

/-- What holds of a history `before`, of the event after it, and of any later time `final`. -/
structure Orderly (before : History) (e : Event) (final : History) : Prop where
  /-- No two runs have the same scope and epoch. -/
  started : final.started.Nodup
  /-- The epoch of a live scope never goes down. -/
  epoch : ∀ x r r', before.tree.record? x = some r → final.tree.record? x = some r' →
    r.epoch ≤ r'.epoch
  /-- An evaluation moves on step by step and never back. -/
  moves : ∀ x r r', before.tree.record? x = some r → (before.step e).tree.record? x = some r' →
    r.state.Moves r'.state
  phase : ∀ x r r', before.tree.record? x = some r → final.tree.record? x = some r' →
    r.state.phase ≤ r'.state.phase
  /-- The end of an evaluation changes no record but that of its own scope, and that one only if the
  scope is live and enabled and the run is its current one. -/
  complete : ∀ place values, e = .complete place values → ∀ x,
    (before.step e).tree.record? x ≠ before.tree.record? x →
      ∃ t r, before.session.tasks[place]? = some t ∧ t.run = ⟨x, r.epoch⟩ ∧
        before.tree.record? x = some r ∧ r.disabled = false ∧
        (before.step e).tree.record? x = some { r with state := .resolved values }
  /-- After the values of a run no values of the same or an earlier run are stored. -/
  stored : final.stored.Pairwise fun a b => a.scope = b.scope → a.epoch < b.epoch
  /-- The end of a run that no longer counts changes nothing, nor does what it publishes. -/
  outdated_complete : ∀ run ∈ before.started, before.Outdated run → ∀ place values t,
    final.session.tasks[place]? = some t → t.run = run →
      (final.step (.complete place values)).tree = final.tree
  outdated_publish : ∀ run ∈ before.started, before.Outdated run → ∀ target name data,
    final.step (.publish (some run) target name data) = final
  /-- The values of a scope are one for each part of its bullet; a placeholder has none. -/
  filled : ∀ x r values, final.tree.record? x = some r → r.state = .resolved values →
    values.length = r.bullet.parts.length ∧ (r.placeholder = true → values = [])

theorem Sound.orderly (hh : h.Sound) (e : Event) (later : List Event)
    (hwrap : (h.run (e :: later)).Unwrapped) : Orderly h e (h.run (e :: later)) := by
  have hwrap' : (h.step e).Unwrapped := Unwrapped.of_run later hwrap
  have hfinal := hh.run hwrap
  have hages := hh.ages hwrap
  have hsteps := hh.steps e hwrap'
  refine
    { started := hfinal.started_nodup
      epoch := fun x r r' hr hr' => (hages.record hr hr').epoch
      moves := fun x r r' hr hr' => (hsteps.record hr hr').moves
      phase := fun x r r' hr hr' => (hages.record hr hr').phase
      complete := ?_
      stored := hfinal.stored_rising
      outdated_complete := ?_
      outdated_publish := ?_
      filled := ?_ }
  · rintro place values rfl x hne
    rcases History.step_complete h place values with he | ⟨t, ht, -, -, -, -, -, hcase⟩
    · exact (hne (by rw [he])).elim
    · rcases hcase with ⟨-, htree, -⟩ | ⟨hcurrent, htree, -⟩
      · exact (hne (by rw [htree])).elim
      · obtain ⟨r, hr, hepoch, hd⟩ := isCurrent_iff.mp hcurrent
        rw [htree, ScopeTree.record?_modify] at hne ⊢
        by_cases hx : x = t.run.scope
        · subst hx
          refine ⟨t, r, ht, by rw [hepoch], hr, hd, ?_⟩
          rw [if_pos rfl, show h.tree.record? t.run.scope = some r from hr, Option.map_some]
        · rw [if_neg hx] at hne
          exact (hne rfl).elim
  · rintro run hrun hout place values t ht rfl
    have hnot := hh.not_current_of_outdated hrun hout hwrap
    rcases History.step_complete (h.run (e :: later)) place values with
      he | ⟨t', ht', -, -, -, -, -, hcase⟩
    · rw [he]
    · obtain rfl : t' = t := Option.some.inj (ht'.symm.trans ht)
      rcases hcase with ⟨-, htree, -⟩ | ⟨hcurrent, -⟩
      · exact htree
      · rw [hnot] at hcurrent
        cases hcurrent
  · intro run hrun hout target name data
    have hnot := hh.not_current_of_outdated hrun hout hwrap
    rcases History.step_publish (h.run (e :: later)) (some run) target name data with
      he | ⟨result, haccepts, -⟩
    · exact he
    · simp [accepts, hnot] at haccepts
  · intro x r values hr hv
    have hlen := hfinal.tracked.filled x r hr values hv
    refine ⟨hlen, fun hp => ?_⟩
    rw [((hfinal.tracked.rooted.linked x r hr).blank hp).1] at hlen
    exact List.length_eq_zero_iff.mp hlen

end History

/-- Runs that no longer count leave no trace, in whatever order evaluations start and end, publish
results, and scopes are disabled and rebuilt. -/
theorem outdated_runs_leave_no_trace (d : Document) (functions : Registry) (config : EngineConfig)
    (providers : Directory) (events : List Event) (e : Event) (later : List Event)
    (hwrap : ((History.start (ofTree (.build d) functions config providers)).run
      (events ++ e :: later)).Unwrapped) :
    ((History.start (ofTree (.build d) functions config providers)).run events).Orderly e
      ((History.start (ofTree (.build d) functions config providers)).run
        (events ++ e :: later)) := by
  have hsplit : ∀ h : History, h.run (events ++ e :: later) = (h.run events).run (e :: later) :=
    fun h => List.foldl_append
  rw [hsplit] at hwrap ⊢
  exact ((History.sound_start d functions config providers).run hwrap.of_run).orderly e later hwrap

/-- A scope is evaluated twice at a time and then rebuilt while its later run is under way. -/
theorem outdated_runs_leave_no_trace_rebuilt :
    ((History.start (ofTree (.build .empty) [] .default .empty)).run
        [.start ⟨0, 0⟩ false, .start ⟨0, 0⟩ true]).Orderly (.complete 0 [])
      ((History.start (ofTree (.build .empty) [] .default .empty)).run
        ([.start ⟨0, 0⟩ false, .start ⟨0, 0⟩ true] ++ .complete 0 [] ::
          [.rebuild ⟨0, 0⟩ .empty, .start ⟨0, 1⟩ false,
            .publish (some ⟨⟨0, 0⟩, 2⟩) ⟨0, 1⟩ "late" .null, .complete 0 []])) :=
  outdated_runs_leave_no_trace .empty [] .default .empty _ _ _
    (History.unwrapped_of_length (ScopeTree.rooted_build _) (by decide))

end FormulaOutline
