import FormulaOutline.Evaluation.Process
import FormulaOutline.Proofs.Scope.Aging
import FormulaOutline.Proofs.Session.Polling
import Mathlib.Data.Finset.Card
import Mathlib.Data.Set.Finite.Basic
import Mathlib.Logic.Hydra
import Mathlib.Logic.Relation

/-!
# Every run of the evaluations ends

Evaluations that can go on take their turns in any order, notices are delivered at any time, and time
passes to the next deadline only when nothing can go on without it. Whatever a process finds when it
goes on, what remains of it is smaller, so no process goes on for ever, and neither do processes side by
side.

* `Process.Next`: what can remain after one step; of processes side by side one takes it (`NextIn`).
* `wellFounded_next`, `wellFounded_nextIn`: by recursion over the process. Of several processes each
  may take its steps at any time, which is an induction for the first one and for the others at once.
* `Process.goesOn`, `Task.isAwake`: what can go on without time passing.
* `Session.Step`: one turn, one delivery or one deadline.
* `Session.wellFounded_step`: no session takes steps for ever. A turn starts a scope that was idle, or
  it leaves less of its evaluation and does nothing to the others (`poll_next`); a delivery leaves fewer
  notices, and a deadline fewer deadlines ahead.
* `Session.exists_bound`: there are finitely many next steps, so that the runs of a session have a
  common bound.
-/

namespace FormulaOutline.Process

open Relation

mutual

/-- The first process can remain of the second one after a step, or be a part of what remains. -/
inductive Next : Process → Process → Prop
  | look (next : ScopeTree → Process) (t : ScopeTree) : Next (next t) (.look next)
  | await (id : ScopeId) (next : Option (List Value) → Process) (values : Option (List Value)) :
      Next (next values) (.await id next)
  | wait (id : ScopeId) (deadline : Nat) (next : Option (List Value) → Process) :
      Next (.waiting id deadline next) (.await id next)
  | waiting (id : ScopeId) (deadline : Nat) (next : Option (List Value) → Process)
      (values : Option (List Value)) : Next (next values) (.waiting id deadline next)
  | sleep (ms : Nat) (next : Process) : Next next (.sleep ms next)
  | fallAsleep (ms deadline : Nat) (next : Process) :
      Next (.sleeping deadline next) (.sleep ms next)
  | sleeping (deadline : Nat) (next : Process) : Next next (.sleeping deadline next)
  | publish (target : ScopeId) (name : String) (data : Value) (next : Process) :
      Next next (.publish target name data next)
  | consult (query : Query) (next : query.Answer → Process) (answer : query.Answer) :
      Next (next answer) (.consult query next)
  | part {parts' parts : List Process} (h : NextIn parts' parts) (next : List Value → Process) :
      Next (.gather parts' next) (.gather parts next)
  | gather (parts : List Process) (next : List Value → Process) (values : List Value) :
      Next (next values) (.gather parts next)

/-- One of several processes has taken a step. -/
inductive NextIn : List Process → List Process → Prop
  | head {q p : Process} (h : Next q p) (rest : List Process) : NextIn (q :: rest) (p :: rest)
  | tail (p : Process) {rest' rest : List Process} (h : NextIn rest' rest) :
      NextIn (p :: rest') (p :: rest)

end

variable {p q : Process} {parts parts' rest rest' : List Process}

/-! ## Several steps -/

theorem head_of_transGen (h : TransGen Next q p) (rest : List Process) :
    TransGen NextIn (q :: rest) (p :: rest) :=
  TransGen.lift (· :: rest) (fun _ _ hNext => NextIn.head hNext rest) _ _ h

theorem tail_of_transGen (p : Process) (h : TransGen NextIn rest' rest) :
    TransGen NextIn (p :: rest') (p :: rest) :=
  TransGen.lift (p :: ·) (fun _ _ hNext => NextIn.tail p hNext) _ _ h

theorem part_of_transGen (h : TransGen NextIn parts' parts) (next : List Value → Process) :
    TransGen Next (.gather parts' next) (.gather parts next) :=
  TransGen.lift (Process.gather · next) (fun _ _ hNext => Next.part hNext next) _ _ h

/-! ## No process goes on for ever -/

theorem acc_nil : Acc NextIn [] :=
  ⟨_, fun _ h => nomatch h⟩

theorem acc_cons (hHead : Acc Next p) (hTail : Acc NextIn rest) : Acc NextIn (p :: rest) := by
  induction hHead generalizing rest with
  | intro p _ ihHead =>
    induction hTail with
    | intro rest hTail ihTail =>
      refine ⟨_, fun parts h => ?_⟩
      cases h with
      | head h => exact ihHead _ h ⟨_, hTail⟩
      | tail _ h => exact ihTail _ h

theorem acc_gather {next : List Value → Process} (hParts : Acc NextIn parts)
    (hNext : ∀ values, Acc Next (next values)) : Acc Next (.gather parts next) := by
  induction hParts with
  | intro parts _ ih =>
    refine ⟨_, fun q h => ?_⟩
    cases h with
    | part h => exact ih _ h
    | gather _ _ values => exact hNext values

mutual

theorem acc_next : (p : Process) → Acc Next p
  | .done _ => ⟨_, fun _ h => nomatch h⟩
  | .look next => ⟨_, fun _ h => by
      cases h with
      | look _ t => exact acc_next (next t)⟩
  | .await id next => by
      have hNext := fun values => acc_next (next values)
      refine ⟨_, fun q h => ?_⟩
      cases h with
      | await _ _ values => exact hNext values
      | wait _ deadline _ =>
        refine ⟨_, fun q h => ?_⟩
        cases h with
        | waiting _ _ _ values => exact hNext values
  | .waiting id deadline next => ⟨_, fun _ h => by
      cases h with
      | waiting _ _ _ values => exact acc_next (next values)⟩
  | .sleep ms next => by
      have hNext := acc_next next
      refine ⟨_, fun q h => ?_⟩
      cases h with
      | sleep => exact hNext
      | fallAsleep =>
        refine ⟨_, fun q h => ?_⟩
        cases h with
        | sleeping => exact hNext
  | .sleeping deadline next => ⟨_, fun _ h => by
      cases h with
      | sleeping => exact acc_next next⟩
  | .publish target name data next => ⟨_, fun _ h => by
      cases h with
      | publish => exact acc_next next⟩
  | .consult query next => ⟨_, fun _ h => by
      cases h with
      | consult _ _ answer => exact acc_next (next answer)⟩
  | .gather parts next => acc_gather (acc_nextIn parts) fun values => acc_next (next values)

theorem acc_nextIn : (parts : List Process) → Acc NextIn parts
  | [] => acc_nil
  | p :: rest => acc_cons (acc_next p) (acc_nextIn rest)

end

theorem wellFounded_next : WellFounded Next := ⟨acc_next⟩

theorem wellFounded_nextIn : WellFounded NextIn := ⟨acc_nextIn⟩

end FormulaOutline.Process

namespace FormulaOutline

open Process Relation

namespace Process

mutual

/-- Whether a process can go on as things are. One that has ended cannot. -/
def goesOn (s : Session) : Process → Bool
  | done _ => false
  | waiting id deadline _ =>
      (s.tree.values? id).isSome || !s.tree.isLive id || decide (deadline ≤ s.clock)
  | sleeping deadline _ => decide (deadline ≤ s.clock)
  | gather parts _ => anyGoesOn s parts || (values? parts).isSome
  | _ => true

def anyGoesOn (s : Session) : List Process → Bool
  | [] => false
  | p :: rest => goesOn s p || anyGoesOn s rest

end

end Process

/-- Whether an evaluation can go on or has ended. -/
def Task.isAwake (s : Session) (t : Task) : Bool :=
  anyGoesOn s t.parts || (Process.values? t.parts).isSome

namespace Session

/-! ## Steps -/

/-- What a scheduler can do next. -/
inductive Step (s : Session) : Session → Prop
  | turn {place : Nat} {t : Task} (hTask : s.tasks[place]? = some t) (hAwake : t.isAwake s = true) :
      Step s ({ s with tasks := s.tasks.eraseIdx place }.turn t)
  | deliver (hListening : s.listening = true) (hNotices : s.notices ≠ []) : Step s s.deliverNext
  | deadline {time : Nat} (hAsleep : ∀ t ∈ s.tasks, t.isAwake s = false)
      (hDelivered : s.listening = true → s.notices = [])
      (hTime : s.nextDeadline? (.done .undefined) = some time) : Step s { s with clock := time }

variable {s s' s₀ : Session}

/-! ## One turn -/

/-- Sessions that look the same to a process that waits. -/
structure LooksAs (s₀ s : Session) : Prop where
  clock : s.clock = s₀.clock
  values : ∀ x, s.tree.values? x = s₀.tree.values? x
  live : ∀ x, s.tree.isLive x = s₀.tree.isLive x

theorem LooksAs.of_modify {id : ScopeId} {f : ScopeRecord → ScopeRecord} (hs : LooksAs s₀ s)
    (hClock : s'.clock = s.clock) (hTree : s'.tree = s.tree.modify id f)
    (hState : ∀ r, (f r).state.values? = r.state.values?) : LooksAs s₀ s' where
  clock := hClock.trans hs.clock
  values x := by
    rw [← hs.values x, hTree, ScopeTree.values?, ScopeTree.values?, ScopeTree.state,
      ScopeTree.state, ScopeTree.record?_modify]
    split
    · rename_i hScope
      rw [hScope]
      cases s.tree.record? id with
      | none => rfl
      | some r => exact hState r
    · rfl
  live x := by
    have hLive : ∀ t : ScopeTree, t.isLive x = (t.record? x).isSome := fun t => rfl
    rw [← hs.live x, hTree, hLive, hLive, ScopeTree.record?_modify]
    split
    · rename_i hScope
      rw [hScope, Option.isSome_map]
    · rfl

theorem values?_begun (r : ScopeRecord) : (begun r).state.values? = r.state.values? := by
  rw [begun]
  cases r.state <;> rfl

/-- No process changes what others wait for. -/
theorem carried_looksAs (s₀ : Session) : Carried (LooksAs s₀) where
  listen _ h := ⟨h.clock, h.values, h.live⟩
  start s id h := by
    rcases start_cases s id false with hSame | ⟨r, -, -, -, hStart⟩
    · rwa [hSame]
    · rw [hStart]
      exact h.of_modify rfl rfl values?_begun
  publish s run target name data h := by
    rcases publish_cases s run target name data with ⟨-, hSame⟩ | ⟨result, -, hTree, -⟩
    · rwa [hSame]
    · refine h.of_modify ?_ hTree fun r => rfl
      rw [publish]
      split <;> rfl
  ask _ _ h := ⟨h.clock, h.values, h.live⟩

theorem looksAs_poll (run : Option Publisher) (p : Process) (s : Session) :
    LooksAs s (poll run p s).2 :=
  (carried_looksAs s).poll run p s ⟨rfl, fun _ => rfl, fun _ => rfl⟩

mutual

theorem goesOn_congr (h : LooksAs s₀ s) : (p : Process) → p.goesOn s = p.goesOn s₀
  | .done _ => rfl
  | .look _ => rfl
  | .await _ _ => rfl
  | .waiting id deadline _ => by rw [goesOn, goesOn, h.clock, h.values, h.live]
  | .sleep _ _ => rfl
  | .sleeping deadline _ => by rw [goesOn, goesOn, h.clock]
  | .publish _ _ _ _ => rfl
  | .consult _ _ => rfl
  | .gather parts _ => by rw [goesOn, goesOn, anyGoesOn_congr h parts]

theorem anyGoesOn_congr (h : LooksAs s₀ s) : (ps : List Process) →
    anyGoesOn s ps = anyGoesOn s₀ ps
  | [] => rfl
  | p :: rest => by rw [anyGoesOn, anyGoesOn, goesOn_congr h p, anyGoesOn_congr h rest]

end

/-- One step and what comes after it. -/
theorem transGen_of_next {p q r : Process} {b : Prop} (hNext : Next q p)
    (hRest : TransGen Next r q ∨ (r = q ∧ b)) : TransGen Next r p := by
  rcases hRest with hRest | ⟨rfl, -⟩
  · exact hRest.tail hNext
  · exact .single hNext

mutual

/-- A process that can go on leaves less of itself; any other one stays as it is. -/
theorem poll_next (run : Option Publisher) : (p : Process) → (s : Session) →
    TransGen Next (poll run p s).1 p ∨ ((poll run p s).1 = p ∧ p.goesOn s = false)
  | .done v, s => by
    rw [poll]
    exact .inr ⟨rfl, rfl⟩
  | .look next, s => by
    rw [poll]
    exact .inl (transGen_of_next (.look next s.tree) (poll_next run (next s.tree) s))
  | .await id next, s => by
    rw [poll]
    split
    · exact .inl (transGen_of_next (.await id next _) (poll_next run _ s))
    · split
      · exact .inl (transGen_of_next (.await id next _) (poll_next run _ s))
      · split
        · exact .inl (transGen_of_next (.await id next _) (poll_next run _ _))
        · exact .inl (.single (.wait id _ next))
  | .waiting id deadline next, s => by
    rw [poll]
    split
    · exact .inl (transGen_of_next (.waiting id deadline next _) (poll_next run _ s))
    · rename_i hNone
      split
      · rename_i hWaits
        refine .inr ⟨rfl, ?_⟩
        simpa [goesOn, hNone] using hWaits
      · exact .inl (transGen_of_next (.waiting id deadline next _) (poll_next run _ s))
  | .sleep ms next, s => by
    rw [poll]
    split
    · exact .inl (transGen_of_next (.sleep ms next) (poll_next run next s))
    · exact .inl (.single (.fallAsleep ms _ next))
  | .sleeping deadline next, s => by
    rw [poll]
    split
    · exact .inl (transGen_of_next (.sleeping deadline next) (poll_next run next s))
    · rename_i hLater
      exact .inr ⟨rfl, by simpa [goesOn] using hLater⟩
  | .publish target name data next, s => by
    rw [poll]
    exact .inl (transGen_of_next (.publish target name data next) (poll_next run next _))
  | .consult query next, s => by
    rw [poll]
    exact .inl (transGen_of_next (.consult query next _) (poll_next run (next _) _))
  | .gather parts next, s => by
    have hParts := pollAll_next run parts s
    rw [poll]
    dsimp only
    split
    · rename_i values hValues
      have hLast := transGen_of_next (.gather (pollAll run parts s).1 next values)
        (poll_next run (next values) (pollAll run parts s).2)
      rcases hParts with hParts | ⟨hSame, -⟩
      · exact .inl (hLast.trans (part_of_transGen hParts next))
      · rw [hSame] at hLast
        exact .inl hLast
    · rename_i hNone
      rcases hParts with hParts | ⟨hSame, hAny⟩
      · exact .inl (part_of_transGen hParts next)
      · rw [hSame] at hNone ⊢
        exact .inr ⟨rfl, by simp [goesOn, hAny, hNone]⟩

theorem pollAll_next (run : Option Publisher) : (ps : List Process) → (s : Session) →
    TransGen NextIn (pollAll run ps s).1 ps ∨
      ((pollAll run ps s).1 = ps ∧ anyGoesOn s ps = false)
  | [], s => by
    rw [pollAll]
    exact .inr ⟨rfl, rfl⟩
  | p :: rest, s => by
    have hFirst := poll_next run p s
    have hRest := pollAll_next run rest (poll run p s).2
    rw [anyGoesOn_congr (looksAs_poll run p s)] at hRest
    rw [pollAll]
    dsimp only
    rcases hFirst with hFirst | ⟨hSame, hGoes⟩
    · have hHead := head_of_transGen hFirst (pollAll run rest (poll run p s).2).1
      rcases hRest with hRest | ⟨hSame, -⟩
      · exact .inl (hHead.trans (tail_of_transGen p hRest))
      · rw [hSame] at hHead ⊢
        exact .inl hHead
    · rw [hSame]
      rcases hRest with hRest | ⟨hSame, hAny⟩
      · exact .inl (tail_of_transGen p hRest)
      · rw [hSame]
        exact .inr ⟨rfl, by rw [anyGoesOn, hGoes, hAny]; rfl⟩

end

/-! ## What a step uses up -/

/-- The scopes whose evaluation has not been started. -/
def idle (s : Session) : Finset ScopeId :=
  ((s.tree.arena.entries.filter (·.2.state.isIdle)).map Prod.fst).toFinset

theorem mem_idle {x : ScopeId} :
    x ∈ s.idle ↔ ∃ r, s.tree.record? x = some r ∧ r.state.isIdle = true := by
  simp [idle, Arena.mem_entries_iff, ScopeTree.record?]

theorem idle_subset {id : ScopeId} {f : ScopeRecord → ScopeRecord}
    (hTree : s'.tree = s.tree.modify id f)
    (hState : ∀ r, (f r).state.isIdle = true → r.state.isIdle = true) : s'.idle ⊆ s.idle := by
  intro x hx
  obtain ⟨r, hr, hIdle⟩ := mem_idle.1 hx
  rw [hTree] at hr
  obtain ⟨r', hr', ⟨-, rfl⟩ | ⟨-, rfl⟩⟩ := ScopeTree.exists_of_record?_modify hr
  · exact mem_idle.2 ⟨_, hr', hIdle⟩
  · exact mem_idle.2 ⟨r', hr', hState r' hIdle⟩

theorem not_idle_begun (r : ScopeRecord) : (begun r).state.isIdle = false := by
  rw [begun]
  cases r.state <;> rfl

/-- What a process does to the evaluations: it starts a scope that was idle, or nothing. -/
def Spends (s₀ s : Session) : Prop := s.idle ⊂ s₀.idle ∨ (s.idle = s₀.idle ∧ s.tasks = s₀.tasks)

theorem Spends.subset (h : Spends s₀ s) : s.idle ⊆ s₀.idle := by
  rcases h with h | ⟨h, -⟩
  · exact h.subset
  · exact h.subset

theorem carried_spends (s₀ : Session) : Carried (Spends s₀) where
  listen _ h := h
  start s id h := by
    rcases start_cases s id false with hSame | ⟨r, hr, -, hIdle, hStart⟩
    · rwa [hSame]
    · have hIdle : r.state.isIdle = true := by simpa using hIdle
      have hSubset : (s.start id false).2.idle ⊆ s.idle := by
        rw [hStart]
        exact idle_subset rfl fun r' h => by simp [not_idle_begun] at h
      have hStarted : id ∉ (s.start id false).2.idle := by
        intro hx
        obtain ⟨r', hr', hIdle'⟩ := mem_idle.1 hx
        rw [hStart, ScopeTree.record?_modify, if_pos rfl, hr] at hr'
        obtain rfl := Option.some.inj hr'
        simp [not_idle_begun] at hIdle'
      have hStrict := Finset.ssubset_iff_subset_ne.2
        ⟨hSubset, fun hSame => hStarted (hSame ▸ mem_idle.2 ⟨r, hr, hIdle⟩)⟩
      exact .inl (hStrict.trans_subset h.subset)
  publish s run target name data h := by
    rcases publish_cases s run target name data with ⟨-, hSame⟩ | ⟨result, -, hTree, hTasks, -⟩
    · rwa [hSame]
    · have hIdle : (s.publish run target name data).idle = s.idle := by
        ext x
        rw [mem_idle, mem_idle, hTree, ScopeTree.record?_modify]
        split
        · rename_i hScope
          rw [hScope]
          cases s.tree.record? target <;> simp [withResult]
        · rfl
      rwa [Spends, hIdle, hTasks]
  ask _ _ h := h

/-- The deadlines that are still to come. -/
def ahead (s : Session) : List Nat :=
  (s.tasks.flatMap fun t => deadlinesOf t.parts).filter (s.clock < ·)

/-- What steps use up, the most important part first. -/
def rank (s : Session) : Finset ScopeId × Multiset (List Process) × Nat × Nat :=
  (s.idle, ↑(s.tasks.map Task.parts), s.notices.length, s.ahead.length)

def Below : (a b : Finset ScopeId × Multiset (List Process) × Nat × Nat) → Prop :=
  Prod.Lex (· < ·) (Prod.Lex (CutExpand (TransGen NextIn)) (Prod.Lex (· < ·) (· < ·)))

theorem wellFounded_below : WellFounded Below :=
  WellFounded.prod_lex wellFounded_lt
    (WellFounded.prod_lex wellFounded_nextIn.transGen.cutExpand
      (WellFounded.prod_lex wellFounded_lt wellFounded_lt))

theorem complete_frame (s : Session) (run : Publisher) (values : List Value) :
    (s.complete run values).idle ⊆ s.idle ∧ (s.complete run values).tasks = s.tasks := by
  rcases complete_cases s run values with ⟨-, hSame⟩ | ⟨-, hTree, hTasks, -⟩
  · rw [hSame]
    exact ⟨subset_rfl, rfl⟩
  · exact ⟨idle_subset hTree fun r h => by simp [EvalState.isIdle] at h, hTasks⟩

/-- An evaluation that can go on leaves less of itself, or it starts others. -/
theorem turn_spends {t : Task} (hAwake : t.isAwake s₀ = true) (hLooks : LooksAs s₀ s) :
    (s.turn t).idle ⊂ s.idle ∨ ((s.turn t).idle = s.idle ∧
      ((s.turn t).tasks = s.tasks ∨ ∃ parts, TransGen NextIn parts t.parts ∧
        (s.turn t).tasks = s.tasks ++ [⟨t.run, parts⟩])) := by
  have hSpends := (carried_spends s).pollAll (some t.run) t.parts s (.inr ⟨rfl, rfl⟩)
  have hNext := pollAll_next (some t.run) t.parts s
  rw [turn]
  dsimp only
  split
  · rename_i values _
    obtain ⟨hSubset, hTasks⟩ := complete_frame (pollAll (some t.run) t.parts s).2 t.run values
    rcases hSpends with hLess | ⟨hSame, hTasks'⟩
    · exact .inl (hSubset.trans_ssubset hLess)
    · rw [hSame] at hSubset
      rcases hSubset.eq_or_ssubset with hEq | hLess
      · exact .inr ⟨hEq, .inl (hTasks.trans hTasks')⟩
      · exact .inl hLess
  · rename_i hNone
    rcases hSpends with hLess | ⟨hSame, hTasks⟩
    · exact .inl hLess
    · refine .inr ⟨hSame, .inr ⟨(pollAll (some t.run) t.parts s).1, ?_, by rw [hTasks]⟩⟩
      rcases hNext with hNext | ⟨hParts, hAny⟩
      · exact hNext
      · -- Nothing has been done, though the evaluation could go on.
        rw [hParts] at hNone
        rw [anyGoesOn_congr hLooks] at hAny
        rw [Task.isAwake, hAny, hNone] at hAwake
        cases hAwake

theorem ahead_min? (s : Session) : s.ahead.min? = s.nextDeadline? (.done .undefined) := rfl

/-- Fewer deadlines are ahead when time has passed to the next one. -/
theorem length_ahead_lt {time : Nat} (hTime : s.nextDeadline? (.done .undefined) = some time) :
    ({ s with clock := time } : Session).ahead.length < s.ahead.length := by
  rw [← ahead_min?] at hTime
  have hMem : time ∈ s.ahead := List.min?_mem hTime
  have hLater : s.clock < time := by
    rw [ahead, List.mem_filter] at hMem
    simpa using hMem.2
  have hFilter : ({ s with clock := time } : Session).ahead = s.ahead.filter (time < ·) := by
    rw [ahead, ahead, List.filter_filter]
    refine List.filter_congr fun other _ => ?_
    have : time < other → s.clock < other := fun h => Nat.lt_trans hLater h
    simpa using this
  rw [hFilter]
  exact List.length_filter_lt_length_iff_exists.2 ⟨time, hMem, by simp⟩

theorem Step.below (h : Step s s') : Below s'.rank s.rank := by
  cases h with
  | @turn place t hTask hAwake =>
    obtain ⟨hPlace, rfl⟩ := List.getElem?_eq_some_iff.1 hTask
    have hPerm := (List.getElem_cons_eraseIdx_perm hPlace).map Task.parts
    have hParts : (s.tasks[place].parts ::ₘ ↑((s.tasks.eraseIdx place).map Task.parts) :
        Multiset (List Process)) = ↑(s.tasks.map Task.parts) :=
      Multiset.coe_eq_coe.2 hPerm
    rcases turn_spends (s := { s with tasks := s.tasks.eraseIdx place }) hAwake
      ⟨rfl, fun _ => rfl, fun _ => rfl⟩ with hLess | ⟨hSame, hTasks | ⟨parts, hNext, hTasks⟩⟩
    · exact .left _ _ hLess
    · rw [rank, rank, hSame, hTasks, ← hParts]
      refine .right _ (.left _ _ ⟨0, s.tasks[place].parts, by simp, ?_⟩)
      rw [add_zero, Multiset.add_comm, Multiset.singleton_add]
    · rw [rank, rank, hSame, hTasks, ← hParts]
      refine .right _ (.left _ _ ⟨{parts}, s.tasks[place].parts, by simpa using hNext, ?_⟩)
      rw [List.map_append, ← Multiset.coe_add, ← Multiset.singleton_add,
        add_comm _ {s.tasks[place].parts}, ← add_assoc]
      rfl
  | deliver hListening hNotices =>
    cases hAll : s.notices with
    | nil => exact (hNotices hAll).elim
    | cons notice rest =>
      have hNext : s.deliverNext =
          { s with notices := rest, deliveries := s.deliveries ++ s.deliver notice } := by
        simp [deliverNext, hAll, hListening]
      rw [hNext, rank, rank, hAll]
      exact .right _ (.right _ (.left _ _ (Nat.lt_succ_self _)))
  | deadline hAsleep hDelivered hTime =>
    exact .right _ (.right _ (.right _ (length_ahead_lt hTime)))

theorem Step.idle_subset (h : Step s s') : s'.idle ⊆ s.idle := by
  rcases Prod.lex_def.1 h.below with hLess | ⟨hSame, -⟩
  · exact hLess.subset
  · exact hSame.subset

/-- No session takes steps for ever. -/
theorem wellFounded_step : WellFounded fun s' s : Session => Step s s' :=
  Subrelation.wf (fun h => h.below) (InvImage.wf rank wellFounded_below)

/-! ## A common bound -/

/-- There are finitely many next steps. -/
theorem finite_step (s : Session) : {s' | Step s s'}.Finite := by
  have hTurns : (Set.range fun place : Fin s.tasks.length =>
      ({ s with tasks := s.tasks.eraseIdx place } : Session).turn s.tasks[place]).Finite :=
    Set.finite_range _
  have hDeadline : {s' : Session | ∃ time, s.nextDeadline? (.done .undefined) = some time ∧
      s' = { s with clock := time }}.Finite := by
    cases hTime : s.nextDeadline? (.done .undefined) with
    | none => simp
    | some time => simp
  refine ((hTurns.union (Set.finite_singleton s.deliverNext)).union hDeadline).subset ?_
  intro s' h
  cases h with
  | @turn place t hTask _ =>
    obtain ⟨hPlace, rfl⟩ := List.getElem?_eq_some_iff.1 hTask
    exact .inl (.inl ⟨⟨place, hPlace⟩, rfl⟩)
  | deliver _ _ => exact .inl (.inr rfl)
  | deadline _ _ hTime => exact .inr ⟨_, hTime, rfl⟩

/-- The runs of a session take a bounded number of steps. -/
theorem exists_bound (s : Session) :
    ∃ bound, ∀ run : List Session, (s :: run).IsChain Step → run.length ≤ bound := by
  induction s using wellFounded_step.induction with
  | h s ih =>
    choose! bound hBound using ih
    obtain ⟨most, hMost⟩ := ((finite_step s).image bound).bddAbove
    refine ⟨most + 1, fun run hRun => ?_⟩
    cases run with
    | nil => exact Nat.zero_le _
    | cons s' run =>
      rw [List.isChain_cons_cons] at hRun
      have hThis : bound s' ≤ most := hMost ⟨s', hRun.1, rfl⟩
      have hRest := hBound s' hRun.1 run hRun.2
      rw [List.length_cons]
      omega

end Session

end FormulaOutline
