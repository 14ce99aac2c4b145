import FormulaOutline.Proofs.Scope.Aging
import FormulaOutline.Proofs.Session.Operations

/-!
# Histories of sessions

A history is a session with what has been started, stored, disabled and dropped in it.

* `History.step`, `History.run`: what events do to a history.
* `step_start`, `step_complete`, `step_publish`, `step_disable`, `step_rebuild`: one lemma for each
  kind of event.
* `History.Unwrapped`: no slot has been used so often that its generations start over.
-/

namespace FormulaOutline

namespace Session

def startedBy (s : Session) (e : Event) : List Publisher :=
  ((s.apply e).tasks.drop s.tasks.length).map Task.run

/-- The run whose values an event stores. -/
def storedBy (s : Session) : Event → List Publisher
  | .complete place values =>
      (s.tasks[place]?.toList.filter fun t =>
        values.length = t.parts.length ∧ s.isCurrent t.run).map Task.run
  | _ => []

def disabledBy (s : Session) : Event → List ScopeId
  | .disable id => s.tree.owned id
  | _ => []

/-- The scopes that an event drops. -/
def droppedBy (s : Session) : Event → List ScopeId
  | .rebuild id d =>
      match s.tree.rebuild id d with
      | .ok (_, gone, _) => gone
      | .error _ => []
  | _ => []

end Session

open Session

/-- A session with what has happened in it, each list in order. -/
structure History where
  session : Session
  started : List Publisher
  stored : List Publisher
  disabled : List ScopeId
  dropped : List ScopeId

namespace History

/-- A session in which nothing has happened. -/
def start (s : Session) : History := ⟨s, [], [], [], []⟩

def tree (h : History) : ScopeTree := h.session.tree

def step (h : History) (e : Event) : History where
  session := h.session.apply e
  started := h.started ++ h.session.startedBy e
  stored := h.stored ++ h.session.storedBy e
  disabled := h.disabled ++ h.session.disabledBy e
  dropped := h.dropped ++ h.session.droppedBy e

/-- A history after events, the first one first. -/
def run (h : History) (events : List Event) : History := events.foldl step h

/-- The events of a history are those of its session. -/
theorem session_run (h : History) (events : List Event) :
    (h.run events).session = h.session.run events := by
  induction events generalizing h with
  | nil => rfl
  | cons e rest ih => exact ih (h.step e)

/-- A history comes only to sessions that are reached from its first one. -/
theorem reachable_run (h : History) (events : List Event) :
    Reachable h.session (h.run events).session := by
  rw [session_run]
  exact Reachable.refl.run events

/-- No slot has been used so often that its generations start over. -/
def Unwrapped (h : History) : Prop := ∀ i, Arena.uses h.dropped i < 2 ^ 32

variable {h : History}

theorem Unwrapped.of_step {e : Event} (hwrap : (h.step e).Unwrapped) : h.Unwrapped := by
  intro i
  have hi := hwrap i
  rw [step, Arena.uses_append] at hi
  omega

theorem Unwrapped.of_run (events : List Event) (hwrap : (h.run events).Unwrapped) :
    h.Unwrapped := by
  induction events generalizing h with
  | nil => exact hwrap
  | cons e rest ih => exact (ih (h := h.step e) hwrap).of_step

/-! ## How often slots are used -/

/-- An event drops no more than one scope of a slot. -/
theorem uses_droppedBy_le {s : Session} (hs : s.tree.Rooted) (e : Event) (i : Nat) :
    Arena.uses (s.droppedBy e) i ≤ 1 := by
  cases e with
  | rebuild id d =>
    rw [droppedBy]
    split
    · rename_i new gone t' hrebuild
      obtain ⟨-, hnodup, -⟩ := ScopeTree.mem_gone_iff hs hrebuild
      rw [Arena.uses, List.countP_eq_length_filter]
      refine length_le_one (hnodup.filter _) ?_
      intro x hx y hy
      obtain ⟨hx, hxi⟩ := List.mem_filter.mp hx
      obtain ⟨hy, hyi⟩ := List.mem_filter.mp hy
      obtain ⟨r, hr⟩ := ScopeTree.live_of_gone hs hrebuild hx
      obtain ⟨r', hr'⟩ := ScopeTree.live_of_gone hs hrebuild hy
      exact Arena.eq_of_index_eq hr hr' ((beq_iff_eq.mp hxi).trans (beq_iff_eq.mp hyi).symm)
    · exact Nat.zero_le _
  | _ => exact Nat.zero_le _

theorem uses_run_le (hh : h.tree.Rooted) (events : List Event) (i : Nat) :
    Arena.uses (h.run events).dropped i ≤ Arena.uses h.dropped i + events.length := by
  induction events generalizing h with
  | nil => exact Nat.le_refl _
  | cons e rest ih =>
    have hrest := ih (h := h.step e) (rooted_apply hh e)
    have hstep := uses_droppedBy_le hh e i
    have happend : Arena.uses (h.step e).dropped i =
        Arena.uses h.dropped i + Arena.uses (h.session.droppedBy e) i := Arena.uses_append _ _ i
    rw [List.length_cons]
    show Arena.uses ((h.step e).run rest).dropped i ≤ _
    omega

/-- A session in which fewer than `2 ^ 32` events have happened has used no slot too often. -/
theorem unwrapped_of_length {s : Session} (hs : s.tree.Rooted) {events : List Event}
    (hlen : events.length < 2 ^ 32) : ((start s).run events).Unwrapped := by
  intro i
  have hle := uses_run_le (h := start s) hs events i
  have hzero : Arena.uses (start s).dropped i = 0 := rfl
  omega

/-! ## What each event does -/

theorem step_start (h : History) (id : ScopeId) (force : Bool) : h.step (.start id force) = h ∨
    ∃ r, h.tree.record? id = some r ∧ r.disabled = false ∧
      (h.step (.start id force)).tree = h.tree.modify id begun ∧
      (h.step (.start id force)).session.tasks =
        h.session.tasks ++ [⟨⟨id, r.epoch + 1⟩, partsOf h.session.functions id r⟩] ∧
      (h.step (.start id force)).started = h.started ++ [⟨id, r.epoch + 1⟩] ∧
      (h.step (.start id force)).stored = h.stored ∧
      (h.step (.start id force)).disabled = h.disabled ∧
      (h.step (.start id force)).dropped = h.dropped := by
  have hs : h.session.apply (.start id force) = (h.session.start id force).2 := rfl
  rcases start_cases h.session id force with he | ⟨r, hr, hd, -, he⟩
  · left
    simp [step, startedBy, storedBy, disabledBy, droppedBy, hs, he]
  · refine Or.inr ⟨r, hr, hd, ?_, ?_, ?_, ?_, ?_, ?_⟩ <;>
      simp [step, tree, startedBy, storedBy, disabledBy, droppedBy, hs, he]

/-- An evaluation that ends leaves the tasks, and its values reach the tree if its run counts. -/
theorem completeAt_of_task {s : Session} {place : Nat} {values : List Value} {t : Task}
    (ht : s.tasks[place]? = some t) (hlen : values.length = t.parts.length) :
    (s.completeAt place values).tasks = s.tasks.eraseIdx place ∧
      ((s.isCurrent t.run = false ∧ (s.completeAt place values).tree = s.tree) ∨
        (s.isCurrent t.run = true ∧ (s.completeAt place values).tree =
          s.tree.modify t.run.scope fun r => { r with state := .resolved values })) := by
  have hc : s.completeAt place values =
      ({ s with tasks := s.tasks.eraseIdx place }).complete t.run values := by
    simp [completeAt, ht, hlen]
  have hcurrent : ({ s with tasks := s.tasks.eraseIdx place }).isCurrent t.run =
      s.isCurrent t.run := rfl
  rw [hc]
  rcases complete_cases { s with tasks := s.tasks.eraseIdx place } t.run values with
    ⟨hn, he⟩ | ⟨hy, htree, htasks, -⟩
  · rw [he]
    exact ⟨rfl, Or.inl ⟨hcurrent ▸ hn, rfl⟩⟩
  · exact ⟨htasks, Or.inr ⟨hcurrent ▸ hy, htree⟩⟩

theorem step_complete (h : History) (place : Nat) (values : List Value) :
    h.step (.complete place values) = h ∨
    ∃ t, h.session.tasks[place]? = some t ∧ values.length = t.parts.length ∧
      (h.step (.complete place values)).session.tasks = h.session.tasks.eraseIdx place ∧
      (h.step (.complete place values)).started = h.started ∧
      (h.step (.complete place values)).disabled = h.disabled ∧
      (h.step (.complete place values)).dropped = h.dropped ∧
      ((h.session.isCurrent t.run = false ∧
          (h.step (.complete place values)).tree = h.tree ∧
          (h.step (.complete place values)).stored = h.stored) ∨
        (h.session.isCurrent t.run = true ∧
          (h.step (.complete place values)).tree =
            h.tree.modify t.run.scope (fun r => { r with state := .resolved values }) ∧
          (h.step (.complete place values)).stored = h.stored ++ [t.run])) := by
  have hs : h.session.apply (.complete place values) = h.session.completeAt place values := rfl
  cases ht : h.session.tasks[place]? with
  | none =>
    left
    simp [step, startedBy, storedBy, disabledBy, droppedBy, hs, completeAt, ht]
  | some t =>
    by_cases hlen : values.length = t.parts.length
    · obtain ⟨htasks, houtcome⟩ := completeAt_of_task ht hlen
      have hdrop : h.session.startedBy (.complete place values) = [] := by
        have hle : (h.session.tasks.eraseIdx place).length ≤ h.session.tasks.length := by
          rw [List.length_eraseIdx]
          split <;> omega
        rw [startedBy, hs, htasks, List.drop_eq_nil_of_le hle, List.map_nil]
      refine Or.inr ⟨t, rfl, hlen, htasks, ?_, List.append_nil _, List.append_nil _, ?_⟩
      · rw [step, hdrop, List.append_nil]
      · rcases houtcome with ⟨hn, htree⟩ | ⟨hy, htree⟩
        · exact Or.inl ⟨hn, htree, by simp [step, storedBy, ht, hn]⟩
        · exact Or.inr ⟨hy, htree, by simp [step, storedBy, ht, hlen, hy]⟩
    · left
      simp [step, startedBy, storedBy, disabledBy, droppedBy, hs, completeAt, ht, hlen]

theorem step_publish (h : History) (run : Option Publisher) (target : ScopeId) (name : String)
    (data : Value) : h.step (.publish run target name data) = h ∨
    ∃ result, h.session.accepts run target = true ∧
      (h.step (.publish run target name data)).tree = h.tree.modify target (withResult result) ∧
      (h.step (.publish run target name data)).session.tasks = h.session.tasks ∧
      (h.step (.publish run target name data)).started = h.started ∧
      (h.step (.publish run target name data)).stored = h.stored ∧
      (h.step (.publish run target name data)).disabled = h.disabled ∧
      (h.step (.publish run target name data)).dropped = h.dropped := by
  have hs : h.session.apply (.publish run target name data) =
    h.session.publish run target name data := rfl
  rcases publish_cases h.session run target name data with ⟨-, he⟩ | ⟨result, ha, htree, ht, -⟩
  · left
    simp [step, startedBy, storedBy, disabledBy, droppedBy, hs, he]
  · refine Or.inr ⟨result, ha, ?_, ?_, ?_, ?_, ?_, ?_⟩ <;>
      simp [step, tree, startedBy, storedBy, disabledBy, droppedBy, hs, htree, ht]

theorem step_disable (h : History) (id : ScopeId) :
    (h.step (.disable id)).tree = h.tree.disable id ∧
      (h.step (.disable id)).session.tasks = h.session.tasks ∧
      (h.step (.disable id)).started = h.started ∧
      (h.step (.disable id)).stored = h.stored ∧
      (h.step (.disable id)).disabled = h.disabled ++ h.tree.owned id ∧
      (h.step (.disable id)).dropped = h.dropped := by
  have hs : h.session.apply (.disable id) = h.session.disable id := rfl
  refine ⟨?_, ?_, ?_, ?_, ?_, ?_⟩ <;>
    simp [step, tree, startedBy, storedBy, disabledBy, droppedBy, hs, Session.disable]

theorem step_rebuild (h : History) (id : ScopeId) (d : Document) : h.step (.rebuild id d) = h ∨
    ∃ new gone, h.tree.rebuild id d = .ok (new, gone, (h.step (.rebuild id d)).tree) ∧
      (h.step (.rebuild id d)).session.tasks = h.session.tasks ∧
      (h.step (.rebuild id d)).started = h.started ∧
      (h.step (.rebuild id d)).stored = h.stored ∧
      (h.step (.rebuild id d)).disabled = h.disabled ∧
      (h.step (.rebuild id d)).dropped = h.dropped ++ gone := by
  cases hr : h.session.rebuild id d with
  | error e =>
    left
    have htree : ∃ e, h.session.tree.rebuild id d = .error e := by
      unfold Session.rebuild at hr
      cases ht : h.session.tree.rebuild id d with
      | error e => exact ⟨e, rfl⟩
      | ok result =>
        rw [ht] at hr
        cases hr
    obtain ⟨e, he⟩ := htree
    simp [step, startedBy, storedBy, disabledBy, droppedBy, apply, hr, he]
  | ok result =>
    obtain ⟨new, s'⟩ := result
    obtain ⟨gone, htree, htasks⟩ := rebuild_cases hr
    refine Or.inr ⟨new, gone, ?_, ?_, ?_, ?_, ?_, ?_⟩ <;>
      simp [step, tree, startedBy, storedBy, disabledBy, droppedBy, apply, hr, htree, htasks]

end History

end FormulaOutline
