import FormulaOutline.Function.Slot
import FormulaOutline.Proofs.Session.Polling

/-!
# What processes do

A process asks providers and puts results on scopes. These are its deeds; all else that it does is
reading and waiting.

* `deeds`: what a process does until it ends or has to wait. Its session changes by its deeds, and by the
  evaluations that it starts (`after_poll`).
* `Does`: a process does something at once and goes on as another one. Steps follow one another
  (`Does.trans`), one lemma for each kind of step.
* `Goes`: the same with waits, during which anything may happen to the session (`Goes.trans`).
* `Finds`: a part of a process that only reads and waits, such as an argument of a call
  (`finds_withSlot`).
-/

namespace FormulaOutline

open Process ScopeTree

/-- Something that a process does and others can see. -/
inductive Deed
  /-- A provider is asked. -/
  | ask (query : Query)
  /-- A result is put on a scope, or refused there. -/
  | put (target : ScopeId) (name : String) (data : Value)

namespace Session

/-! ## Deeds -/

mutual

/-- What a process does, in order, when it runs until it ends or has to wait. -/
def deeds (run : Option Publisher) : Process → Session → List Deed
  | .done _, _ => []
  | .look next, s => deeds run (next s.tree) s
  | .await id next, s =>
      match s.tree.values? id with
      | some values => deeds run (next (some values)) s
      | none =>
          if s.tree.isDisabled id then deeds run (next none) s
          else if s.config.resolutionTimeoutMs = 0 then deeds run (next none) (s.beginWait id)
          else []
  | .waiting id deadline next, s =>
      match s.tree.values? id with
      | some values => deeds run (next (some values)) s
      | none => if s.tree.isLive id && s.clock < deadline then [] else deeds run (next none) s
  | .sleep ms next, s => if ms = 0 then deeds run next s else []
  | .sleeping deadline next, s => if deadline ≤ s.clock then deeds run next s else []
  | .publish target name data next, s =>
      .put target name data :: deeds run next (s.publish run target name data)
  | .consult query next, s =>
      let (answer, providers) := s.providers.ask s.moment query
      .ask query :: deeds run (next answer) { s with providers }
  | .gather parts next, s =>
      deedsAll run parts s ++
        match Process.values? (pollAll run parts s).1 with
        | some values => deeds run (next values) (pollAll run parts s).2
        | none => []

/-- What processes side by side do, the first one first. -/
def deedsAll (run : Option Publisher) : List Process → Session → List Deed
  | [], _ => []
  | p :: rest, s => deeds run p s ++ deedsAll run rest (poll run p s).2

end

/-- A session after some deeds of a run. Evaluations may have been started between them. -/
inductive After (run : Option Publisher) : Session → List Deed → Session → Prop
  | none (s : Session) : After run s [] s
  | begun {s s' : Session} {ds : List Deed} (id : ScopeId) (h : After run (s.beginWait id) ds s') :
      After run s ds s'
  | asked {s s' : Session} {ds : List Deed} (query : Query)
      (h : After run { s with providers := (s.providers.ask s.moment query).2 } ds s') :
      After run s (.ask query :: ds) s'
  | put {s s' : Session} {ds : List Deed} (target : ScopeId) (name : String) (data : Value)
      (h : After run (s.publish run target name data) ds s') :
      After run s (.put target name data :: ds) s'

variable {run : Option Publisher} {s s' s'' : Session} {ds ds' : List Deed} {p q r : Process}

theorem After.trans (h : After run s ds s') (h' : After run s' ds' s'') :
    After run s (ds ++ ds') s'' := by
  induction h with
  | none => exact h'
  | begun id _ ih => exact .begun id (ih h')
  | asked query _ ih => exact .asked query (ih h')
  | put target name data _ ih => exact .put target name data (ih h')

mutual

/-- A process changes its session by its deeds alone, apart from evaluations that it starts. -/
theorem after_poll (run : Option Publisher) : (p : Process) → (s : Session) →
    After run s (deeds run p s) (poll run p s).2
  | .done v, s => by
    rw [deeds, poll]
    exact .none s
  | .look next, s => by
    rw [deeds, poll]
    exact after_poll run (next s.tree) s
  | .await id next, s => by
    rw [deeds, poll]
    cases s.tree.values? id with
    | some values => exact after_poll run _ s
    | none =>
      by_cases hDisabled : s.tree.isDisabled id = true
      · simp only [if_pos hDisabled]
        exact after_poll run _ s
      · simp only [if_neg hDisabled]
        split
        · exact .begun id (after_poll run _ _)
        · exact .begun id (.none _)
  | .waiting id deadline next, s => by
    rw [deeds, poll]
    cases s.tree.values? id with
    | some values => exact after_poll run _ s
    | none =>
      dsimp only
      split
      · exact .none s
      · exact after_poll run _ s
  | .sleep ms next, s => by
    rw [deeds, poll]
    split
    · exact after_poll run next s
    · exact .none s
  | .sleeping deadline next, s => by
    rw [deeds, poll]
    split
    · exact after_poll run next s
    · exact .none s
  | .publish target name data next, s => by
    rw [deeds, poll]
    exact .put target name data (after_poll run next _)
  | .consult query next, s => by
    rw [deeds, poll]
    exact .asked query (after_poll run (next (s.providers.ask s.moment query).1) _)
  | .gather parts next, s => by
    have hParts := after_pollAll run parts s
    rw [deeds, poll]
    dsimp only
    cases Process.values? (pollAll run parts s).1 with
    | some values => exact hParts.trans (after_poll run _ _)
    | none => exact (List.append_nil _).symm ▸ hParts

theorem after_pollAll (run : Option Publisher) : (ps : List Process) → (s : Session) →
    After run s (deedsAll run ps s) (pollAll run ps s).2
  | [], s => by
    rw [deedsAll, pollAll]
    exact .none s
  | p :: rest, s => by
    rw [deedsAll, pollAll]
    exact (after_poll run p s).trans (after_pollAll run rest _)

end

/-! ## Going on at once -/

/-- Without a wait a process does something and goes on as another one. -/
structure Does (run : Option Publisher) (p : Process) (s : Session) (ds : List Deed) (q : Process)
    (s' : Session) : Prop where
  deeds : deeds run p s = ds ++ deeds run q s'
  poll : poll run p s = poll run q s'

theorem Does.refl (p : Process) (s : Session) : Does run p s [] p s := ⟨rfl, rfl⟩

theorem Does.trans (h : Does run p s ds q s') (h' : Does run q s' ds' r s'') :
    Does run p s (ds ++ ds') r s'' where
  deeds := by rw [h.deeds, h'.deeds, List.append_assoc]
  poll := h.poll.trans h'.poll

theorem does_look (next : ScopeTree → Process) : Does run (.look next) s [] (next s.tree) s :=
  ⟨by rw [deeds]; rfl, by rw [poll]⟩

theorem does_publish (target : ScopeId) (name : String) (data : Value) (next : Process) :
    Does run (.publish target name data next) s [.put target name data] next
      (s.publish run target name data) :=
  ⟨by rw [deeds]; rfl, by rw [poll]⟩

theorem does_consult (query : Query) (next : query.Answer → Process) :
    Does run (.consult query next) s [.ask query] (next (s.providers.ask s.moment query).1)
      { s with providers := (s.providers.ask s.moment query).2 } :=
  ⟨by rw [deeds]; rfl, by rw [poll]⟩

section Waiting

variable {id : ScopeId} {values : List Value} (hValues : s.tree.values? id = some values)
  (next : Option (List Value) → Process)
include hValues

theorem does_await : Does run (.await id next) s [] (next (some values)) s :=
  ⟨by rw [deeds, hValues]; rfl, by rw [poll, hValues]⟩

theorem does_waiting (deadline : Nat) :
    Does run (.waiting id deadline next) s [] (next (some values)) s :=
  ⟨by rw [deeds, hValues]; rfl, by rw [poll, hValues]⟩

end Waiting

/-- Processes side by side that have nothing to do. -/
theorem does_gather {parts : List Process} {values : List Value}
    (h : List.Forall₂ (fun p v => Does run p s [] (.done v) s) parts values)
    (next : List Value → Process) : Does run (.gather parts next) s [] (next values) s := by
  have hParts : deedsAll run parts s = [] ∧ pollAll run parts s = (values.map .done, s) := by
    induction h with
    | nil => exact ⟨by rw [deedsAll], by rw [pollAll]; rfl⟩
    | cons hFirst _ ih =>
      rw [deedsAll, pollAll, hFirst.deeds, hFirst.poll, deeds, poll]
      dsimp only
      rw [ih.1, ih.2]
      exact ⟨rfl, rfl⟩
  have hDone : Process.values? (values.map .done) = some values := values?_eq_some_iff.mpr rfl
  constructor
  · rw [deeds, hParts.1, hParts.2, hDone]
  · rw [poll, hParts.2]
    dsimp only
    rw [hDone]

/-! ## Going on with waits -/

/-- A process does something and goes on as another one, perhaps after waits. While it waits, anything
may happen to the session. -/
inductive Goes (run : Option Publisher) :
    Process → Session → List Deed → Process → Session → Prop
  | now {p q : Process} {s s' : Session} {ds : List Deed} (h : Does run p s ds q s') :
      Goes run p s ds q s'
  | later {p q : Process} {s between s' : Session} {ds : List Deed}
      (h : Goes run (poll run p s).1 between ds q s') : Goes run p s (deeds run p s ++ ds) q s'

theorem Goes.trans (h : Goes run p s ds q s') (h' : Goes run q s' ds' r s'') :
    Goes run p s (ds ++ ds') r s'' := by
  induction h with
  | now hDoes =>
    cases h' with
    | now h' => exact .now (hDoes.trans h')
    | later h' =>
      rw [← List.append_assoc, ← hDoes.deeds]
      exact .later (hDoes.poll ▸ h')
  | later _ ih =>
    rw [List.append_assoc]
    exact .later (ih h')

variable {α β : Type} {a : α} {b : β} {c : Piece α}

/-- A piece of a process finds `a`, at once or after waits, and does nothing but reading and waiting. -/
def Finds (run : Option Publisher) (s : Session) (c : Piece α) (a : α) (s' : Session) : Prop :=
  ∀ next, Goes run (c next) s [] (next a) s'

theorem Finds.bind {f : α → Piece β} (h : Finds run s c a s') (hf : Finds run s' (f a) b s'') :
    Finds run s (fun next => c fun x => f x next) b s'' :=
  fun next => (h _).trans (hf next)

theorem finds_of_does (h : ∀ next, Does run (c next) s [] (next a) s) : Finds run s c a s :=
  fun next => .now (h next)

theorem Finds.map (h : Finds run s c a s') (f : α → β) :
    Finds run s (fun next => c fun x => next (f x)) (f a) s' :=
  h.bind (f := fun x next => next (f x)) (finds_of_does fun _ => .refl _ _)

theorem finds_await {id : ScopeId} {values : List Value} (hValues : s.tree.values? id = some values) :
    Finds run s (.await id) (some values) s :=
  finds_of_does (does_await hValues)

/-- A scope that has no values yet is waited for until it has some. -/
theorem finds_await_later {id : ScopeId} {values : List Value} (hNone : s.tree.values? id = none)
    (hEnabled : s.tree.isDisabled id = false) (hPatient : s.config.resolutionTimeoutMs ≠ 0)
    (hValues : s'.tree.values? id = some values) : Finds run s (.await id) (some values) s' := by
  intro next
  have hWaits : (poll run (.await id next) s).1 = .waiting id s.deadline next := by
    rw [poll, hNone]
    simp only [hEnabled, Bool.false_eq_true, if_false, if_neg hPatient]
  have hDeeds : deeds run (.await id next) s = [] := by
    rw [deeds, hNone]
    simp only [hEnabled, Bool.false_eq_true, if_false, if_neg hPatient]
  have hLater : Goes run (poll run (.await id next) s).1 s' [] (next (some values)) s' := by
    rw [hWaits]
    exact .now (does_waiting hValues next _)
  simpa only [hDeeds, List.append_nil] using Goes.later hLater

/-! ## Arguments of calls -/

theorem finds_look (f : ScopeTree → α) :
    Finds run s (fun next => .look fun t => next (f t)) (f s.tree) s :=
  finds_of_does fun _ => does_look _

theorem finds_awaitAll {scopes : List ScopeId}
    (h : ∀ x ∈ scopes, ∃ values, s.tree.values? x = some values) :
    Finds run s (fun next => awaitAll scopes (next ())) () s := by
  induction scopes with
  | nil => exact finds_of_does fun _ => .refl _ _
  | cons x rest ih =>
    rw [List.forall_mem_cons] at h
    obtain ⟨⟨values, hValues⟩, hRest⟩ := h
    exact (finds_await hValues).bind (f := fun _ next => awaitAll rest (next ())) (ih hRest)

section Pointer

variable {id : ScopeId} {values : List Value} (h : Finds run s (.await id) (some values) s')
  (hPointers : ∀ x ∈ values.filterMap Value.asScope, ∃ vs, s'.tree.values? x = some vs)
include h hPointers

theorem finds_valueOfScope : Finds run s (Process.valueOfScope id) (s'.tree.value id) s' :=
  h.bind (f := valueAfter id) <|
    (finds_awaitAll hPointers).bind (f := fun _ next => .look fun t => next (t.value id))
      (finds_look _)

/-- A pointer to a scope is followed once the scope has values, and what they point to. -/
theorem finds_typed (hLive : s.tree.isLive id = true) :
    Finds run s (typed (.scope id)) ((s'.tree.typedValue? id).getD (s'.tree.value id)) s' := by
  intro next
  have hLook : Does run (typed (.scope id) next) s [] _ s := does_look _
  rw [if_pos hLive] at hLook
  have hValue := (finds_valueOfScope h hPointers).bind
    (f := fun plain next => .look fun t => next ((t.typedValue? id).getD plain)) (finds_look _)
  exact (Goes.now hLook).trans (hValue next)

end Pointer

/-- An argument is found as soon as its value is. -/
theorem finds_withSlot {args : CallArgs} {name : String} {i : Nat} {v w : Value}
    (hSlot : args.slot name i = .present v) (h : Finds run s (typed v) w s')
    (hDefined : w.isUndefined = false) : Finds run s (Functions.withSlot args name i) (some w) s' := by
  have hMap := h.map fun resolved => if resolved.isUndefined then none else some resolved
  rw [if_neg (by rw [hDefined]; exact Bool.false_ne_true)] at hMap
  intro next
  rw [Functions.withSlot, hSlot]
  exact hMap next

end Session

end FormulaOutline
