import FormulaOutline.Proofs.Evaluation.Steady
import FormulaOutline.Proofs.Session.Operations

/-!
# Steady processes going on

A steady process that goes on in a session changes nothing there, and what remains of it is steady
and ends in the same value.

* `Session.Ready`: waiting for a scope starts no evaluation and does not time out at once.
* `Session.ahead_poll`: what remains of a steady process, `Session.ahead_pollAll` of several ones.
-/

namespace FormulaOutline

open Process ScopeTree

namespace Session

variable {s s' : Session} {u t : ScopeTree} {P Q : Value → Prop}

/-! ## Deadlines -/

mutual

/-- A process that has not begun waits for nothing. -/
theorem deadlines_eq_nil : (p : Process) → {P : Value → Prop} → Steady u false p P t →
    p.deadlines = []
  | .done _, _, _ => rfl
  | .look _, _, _ => rfl
  | .await _ _, _, _ => rfl
  | .waiting _ _ _, _, h => by
    rw [Steady] at h
    exact (Bool.false_ne_true h.1).elim
  | .gather parts _, _, h => by
    rw [Steady] at h
    obtain ⟨Q, hParts, -⟩ := h
    rw [deadlines]
    exact deadlinesOf_eq_nil parts hParts
  | .sleep _ _, _, _ => rfl
  | .sleeping _ _, _, h => by
    rw [Steady] at h
    exact h.elim
  | .publish _ _ _ _, _, _ => rfl
  | .consult _ _, _, _ => rfl

theorem deadlinesOf_eq_nil : (ps : List Process) → {Q : Value → Prop} → AllSteady u false ps Q t →
    deadlinesOf ps = []
  | [], _, _ => rfl
  | p :: rest, _, h => by
    rw [AllSteady] at h
    rw [deadlinesOf, deadlines_eq_nil p h.1, deadlinesOf_eq_nil rest h.2, List.append_nil]

end

/-! ## Sessions in which everything has begun -/

/-- Every scope can be waited for, and no evaluation remains to be started. -/
structure Ready (s : Session) : Prop where
  timeout : 0 < s.config.resolutionTimeoutMs
  begun : ∀ x r, s.tree.record? x = some r → r.disabled = false ∧ r.state.isIdle = false

theorem Ready.beginWait (h : s.Ready) (x : ScopeId) : s.beginWait x = s.listen := by
  rw [Session.beginWait]
  rcases start_cases s.listen x false with hSame | ⟨r, hr, -, hIdle, -⟩
  · exact hSame
  · rw [(h.begun x r hr).2] at hIdle
    simp at hIdle

theorem Ready.isDisabled (h : s.Ready) (x : ScopeId) :
    s.tree.isDisabled x = !s.tree.isLive x := by
  rw [ScopeTree.isDisabled, ScopeTree.isLive, Arena.isLive]
  cases hr : s.tree.record? x with
  | none =>
    rw [ScopeTree.record?] at hr
    rw [hr]
    rfl
  | some r =>
    rw [Option.map_some, Option.getD_some, (h.begun x r hr).1]
    rw [ScopeTree.record?] at hr
    rw [hr]
    rfl

/-- A session that is the same but for whether notices are delivered. -/
def Listens (s s' : Session) : Prop := s' = s ∨ s' = s.listen

theorem Listens.trans {s'' : Session} (h : Listens s s') (h' : Listens s' s'') : Listens s s'' := by
  rcases h with rfl | rfl <;> rcases h' with rfl | rfl
  · exact .inl rfl
  · exact .inr rfl
  · exact .inr rfl
  · exact .inr rfl

theorem Listens.tree_eq (h : Listens s s') : s'.tree = s.tree := by
  rcases h with rfl | rfl <;> rfl

theorem Listens.clock_eq (h : Listens s s') : s'.clock = s.clock := by
  rcases h with rfl | rfl <;> rfl

theorem Listens.ready (h : Listens s s') (hs : s.Ready) : s'.Ready := by
  rcases h with rfl | rfl
  · exact hs
  · exact ⟨hs.timeout, hs.begun⟩

/-! ## Going on -/

/-- What remains of a process that has gone on: it ends in the same value, and still no wait is
over. -/
structure Ahead (u : ScopeTree) (s : Session) (p : Process) (P : Value → Prop)
    (after : Process × Session) : Prop where
  session : Listens s after.2
  steady : Steady u true after.1 P s.tree
  settled : after.1.settled u = p.settled u
  deadlines : ∀ time ∈ after.1.deadlines, s.clock < time

structure AllAhead (u : ScopeTree) (s : Session) (ps : List Process) (Q : Value → Prop)
    (after : List Process × Session) : Prop where
  session : Listens s after.2
  steady : AllSteady u true after.1 Q s.tree
  settled : settledAll u after.1 = settledAll u ps
  deadlines : ∀ time ∈ deadlinesOf after.1, s.clock < time

/-- What a process goes on with, when it may begin, has the value of the process. -/
theorem Ahead.of_next {p q : Process} {after : Process × Session} (hs : Listens s s')
    (hNext : Steady u false q P s.tree) (hSettled : q.settled u = p.settled u)
    (hGo : Steady u true q P s'.tree → (∀ time ∈ q.deadlines, s'.clock < time) →
      Ahead u s' q P after) : Ahead u s p P after := by
  have hDeadlines : ∀ time ∈ q.deadlines, s'.clock < time := by
    rw [deadlines_eq_nil q hNext]
    simp
  have h := hGo (hs.tree_eq.symm ▸ hNext.begun) hDeadlines
  exact ⟨hs.trans h.session, hs.tree_eq ▸ h.steady, h.settled.trans hSettled,
    hs.clock_eq ▸ h.deadlines⟩

theorem value?_eq_some_iff {p : Process} {v : Value} : p.value? = some v ↔ p = .done v := by
  cases p <;> simp [value?]

theorem values?_eq_some_iff {ps : List Process} {vs : List Value} :
    Process.values? ps = some vs ↔ ps = vs.map .done := by
  induction ps generalizing vs with
  | nil => cases vs <;> simp [Process.values?]
  | cons p rest ih =>
    rw [Process.values?] at ih ⊢
    simp only [List.mapM_cons, Option.bind_eq_bind, Option.bind_eq_some_iff, Option.pure_def,
      Option.some.injEq, value?_eq_some_iff, ih]
    constructor
    · rintro ⟨v, rfl, ws, rfl, rfl⟩
      rfl
    · intro hDone
      cases vs with
      | nil => cases hDone
      | cons v ws =>
        rw [List.map_cons, List.cons.injEq] at hDone
        exact ⟨v, hDone.1, ws, hDone.2, rfl⟩

theorem settledAll_done (u : ScopeTree) (vs : List Value) :
    settledAll u (vs.map .done) = vs := by
  induction vs with
  | nil => rfl
  | cons v rest ih => rw [List.map_cons, settledAll, settled, ih]

/-- The values that processes have come to are those they end in. -/
theorem AllAhead.of_done {ps : List Process} {vs : List Value} {after : List Process × Session}
    (h : AllAhead u s ps Q after) (hValues : Process.values? after.1 = some vs) :
    vs = settledAll u ps ∧ ∀ v ∈ vs, Q v := by
  have hDone := values?_eq_some_iff.1 hValues
  refine ⟨by rw [← h.settled, hDone, settledAll_done], fun v hv => ?_⟩
  have hSteady := h.steady
  rw [hDone, allSteady_iff] at hSteady
  have hThis := hSteady (.done v) (List.mem_map_of_mem hv)
  rwa [Steady] at hThis

mutual

/-- A steady process goes on until it has its value or waits for a scope without values. -/
theorem ahead_poll (run : Option Publisher) : (p : Process) → {P : Value → Prop} →
    {s : Session} → s.Ready → s.tree.Within u → s.tree.Honest → Steady u true p P s.tree →
    (∀ time ∈ p.deadlines, s.clock < time) → Ahead u s p P (poll run p s)
  | .done v, P, s, hs, ht, hHonest, hp, hTime => by
    rw [poll]
    exact ⟨.inl rfl, hp, rfl, hTime⟩
  | .look next, P, s, hs, ht, hHonest, hp, hTime => by
    rw [Steady] at hp
    obtain ⟨hSame, hNext⟩ := hp s.tree (between_self ht hHonest)
    rw [poll]
    exact .of_next (.inl rfl) hNext (by rw [hSame, settled])
      (ahead_poll run (next s.tree) hs ht hHonest)
  | .await x next, P, s, hs, ht, hHonest, hp, hTime => by
    rw [Steady] at hp
    have hGo : ∀ o, s.tree.values? x = o → u.values? x = o →
        Ahead u s (.await x next) P (poll run (next o) s) := by
      intro o hx hu
      have hNext := hp s.tree (between_self ht hHonest) (hx.trans hu.symm)
      exact .of_next (.inl rfl) (hu ▸ hNext) (by rw [settled, hu])
        (ahead_poll run (next o) hs ht hHonest)
    rw [poll]
    cases hx : s.tree.values? x with
    | some vs => exact hGo _ hx (ht.values x vs hx)
    | none =>
      simp only [hs.isDisabled]
      cases hLive : s.tree.isLive x with
      | false =>
        exact hGo none hx (values?_eq_none_of_dead ((ht.same.isLive x).symm.trans hLive))
      | true =>
        rw [if_neg (by simp), if_neg (Nat.ne_of_gt hs.timeout), hs.beginWait]
        refine ⟨.inr rfl, ?_, rfl, ?_⟩
        · rw [Steady]
          exact ⟨rfl, hp⟩
        · have hTimeout := hs.timeout
          simp [deadlines, deadline]
          omega
  | .waiting x deadline next, P, s, hs, ht, hHonest, hp, hTime => by
    rw [Steady] at hp
    have hGo : ∀ o, s.tree.values? x = o → u.values? x = o →
        Ahead u s (.waiting x deadline next) P (poll run (next o) s) := by
      intro o hx hu
      have hNext := hp.2 s.tree (between_self ht hHonest) (hx.trans hu.symm)
      exact .of_next (.inl rfl) (hu ▸ hNext) (by rw [settled, hu])
        (ahead_poll run (next o) hs ht hHonest)
    rw [poll]
    cases hx : s.tree.values? x with
    | some vs => exact hGo _ hx (ht.values x vs hx)
    | none =>
      cases hLive : s.tree.isLive x with
      | false =>
        rw [if_neg (by simp)]
        exact hGo none hx (values?_eq_none_of_dead ((ht.same.isLive x).symm.trans hLive))
      | true =>
        have hLater : s.clock < deadline := hTime deadline (by simp [deadlines])
        rw [if_pos (by simpa using hLater)]
        refine ⟨.inl rfl, ?_, rfl, hTime⟩
        rw [Steady]
        exact hp
  | .gather parts next, P, s, hs, ht, hHonest, hp, hTime => by
    rw [Steady] at hp
    obtain ⟨Q, hParts, hNext⟩ := hp
    rw [deadlines] at hTime
    have hAll := ahead_pollAll run parts hs ht hHonest hParts hTime
    rw [poll]
    generalize pollAll run parts s = after at hAll
    obtain ⟨parts', s'⟩ := after
    dsimp only at hAll ⊢
    cases hValues : Process.values? parts' with
    | none =>
      refine ⟨hAll.session, ?_, ?_, ?_⟩
      · rw [Steady, hAll.settled]
        exact ⟨Q, hAll.steady, hNext⟩
      · rw [settled, settled, hAll.settled]
      · rw [deadlines]
        exact hAll.deadlines
    | some vs =>
      obtain ⟨hVs, hEach⟩ := hAll.of_done hValues
      have hSteady := hNext s.tree (between_self ht hHonest) (hVs ▸ hEach)
      have hTree := hAll.session.tree_eq
      exact .of_next hAll.session (hVs ▸ hSteady) (by rw [hVs, settled])
        (ahead_poll run (next vs) (hAll.session.ready hs) (hTree ▸ ht) (hTree ▸ hHonest))
  | .sleep _ _, P, s, hs, ht, hHonest, hp, hTime => by
    rw [Steady] at hp
    exact hp.elim
  | .sleeping _ _, P, s, hs, ht, hHonest, hp, hTime => by
    rw [Steady] at hp
    exact hp.elim
  | .publish _ _ _ _, P, s, hs, ht, hHonest, hp, hTime => by
    rw [Steady] at hp
    exact hp.elim
  | .consult _ _, P, s, hs, ht, hHonest, hp, hTime => by
    rw [Steady] at hp
    exact hp.elim

theorem ahead_pollAll (run : Option Publisher) : (ps : List Process) → {Q : Value → Prop} →
    {s : Session} → s.Ready → s.tree.Within u → s.tree.Honest → AllSteady u true ps Q s.tree →
    (∀ time ∈ deadlinesOf ps, s.clock < time) → AllAhead u s ps Q (pollAll run ps s)
  | [], Q, s, hs, ht, hHonest, hp, hTime => by
    rw [pollAll]
    exact ⟨.inl rfl, hp, rfl, hTime⟩
  | p :: rest, Q, s, hs, ht, hHonest, hp, hTime => by
    rw [AllSteady] at hp
    rw [deadlinesOf, List.forall_mem_append] at hTime
    have hFirst := ahead_poll run p hs ht hHonest hp.1 hTime.1
    rw [pollAll]
    generalize poll run p s = after at hFirst
    obtain ⟨p', s'⟩ := after
    have hTree := hFirst.session.tree_eq
    have hRest := ahead_pollAll run rest (hFirst.session.ready hs) (hTree ▸ ht) (hTree ▸ hHonest)
      (Q := Q) (hTree.symm ▸ hp.2) (hFirst.session.clock_eq.symm ▸ hTime.2)
    refine ⟨hFirst.session.trans hRest.session, ?_, ?_, ?_⟩
    · rw [AllSteady]
      exact ⟨hFirst.steady, hTree ▸ hRest.steady⟩
    · rw [settledAll, settledAll, hFirst.settled, hRest.settled]
    · rw [deadlinesOf, List.forall_mem_append]
      exact ⟨hFirst.deadlines, hFirst.session.clock_eq ▸ hRest.deadlines⟩

end

end Session

end FormulaOutline
