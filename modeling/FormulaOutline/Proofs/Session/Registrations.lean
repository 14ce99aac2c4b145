import FormulaOutline.Proofs.Session.Publications

/-!
# Handlers keep their places

A handler is on a scope until it is taken away, or dropped with its scope. When a scope is built anew,
its handlers go to the new scope, and the token that was given for a handler is good wherever the
handler is.

* `HandlerTable.on_register`, `on_unregister`, `on_transfer`, `on_dropScopes`: what the operations of a
  table do to the handlers on each scope.
* `HandlerTable.Given`: no token is given twice.
* `moves_rebuild`: what a rebuilding does to the handlers on each scope.
* `Sits`: where things that happen have taken the handler of a token.
* `mem_on_happen`: the handlers after one more thing has happened.
* `registrations_kept`: what holds of the handlers of every session that a document comes to.
-/

namespace FormulaOutline

open ScopeTree

/-! ## Tables of handlers -/

namespace HandlerTable

variable {h : HandlerTable} {scope source target x y : ScopeId} {token : Nat}

def tokens (h : HandlerTable) : List Nat := h.handlers.map Handler.token

/-- The tokens of the handlers have all been given, each of them once. -/
structure Given (h : HandlerTable) : Prop where
  nodup : h.tokens.Nodup
  lt_issued : ∀ token ∈ h.tokens, token < h.issued

theorem mem_on : token ∈ h.on x ↔ ⟨token, x⟩ ∈ h.handlers := by
  simp only [on, List.mem_map, List.mem_filter, decide_eq_true_eq]
  constructor
  · rintro ⟨e, ⟨he, rfl⟩, rfl⟩
    exact he
  · exact fun he => ⟨_, ⟨he, rfl⟩, rfl⟩

/-- A handler is on one scope. -/
theorem Given.eq_of_mem_on (hGiven : h.Given) (hx : token ∈ h.on x) (hy : token ∈ h.on y) : x = y :=
  congrArg Handler.scope (List.inj_on_of_nodup_map hGiven.nodup (mem_on.mp hx) (mem_on.mp hy) rfl)

theorem Given.nodup_on (hGiven : h.Given) (x : ScopeId) : (h.on x).Nodup :=
  hGiven.nodup.sublist (List.filter_sublist.map Handler.token)

theorem on_append (l l' : List Handler) (n : Nat) (x : ScopeId) :
    on ⟨l ++ l', n⟩ x = on ⟨l, n⟩ x ++ on ⟨l', n⟩ x := by
  rw [on, List.filter_append, List.map_append]
  rfl

theorem on_eq_map {l : List Handler} (n : Nat) (hAll : ∀ e ∈ l, e.scope = x) :
    on ⟨l, n⟩ x = l.map Handler.token := by
  rw [on, List.filter_eq_self.mpr fun e he => decide_eq_true (hAll e he)]

theorem on_eq_nil {l : List Handler} (n : Nat) (hAll : ∀ e ∈ l, e.scope ≠ x) : on ⟨l, n⟩ x = [] := by
  rw [on, List.filter_eq_nil_iff.mpr fun e he => by simpa using hAll e he, List.map_nil]

/-- Handlers on other scopes do not matter. -/
theorem on_filter (l : List Handler) (n : Nat) {p : Handler → Bool}
    (hAll : ∀ e : Handler, e.scope = x → p e = true) : on ⟨l.filter p, n⟩ x = on ⟨l, n⟩ x := by
  rw [on, List.filter_filter, on]
  refine congrArg _ (List.filter_congr fun e _ => ?_)
  cases hScope : decide (e.scope = x) with
  | true => rw [hAll e (of_decide_eq_true hScope), Bool.and_true]
  | false => rw [Bool.false_and]

theorem on_register (h : HandlerTable) (scope x : ScopeId) :
    (h.register scope).2.on x = if x = scope then h.on x ++ [h.issued] else h.on x := by
  rw [register, on_append]
  split
  · rename_i hx
    rw [on_eq_map _ (List.forall_mem_singleton.mpr hx.symm)]
    rfl
  · rename_i hx
    rw [on_eq_nil _ (List.forall_mem_singleton.mpr (Ne.symm hx)), List.append_nil]
    rfl

theorem on_unregister (h : HandlerTable) (token : Nat) (x : ScopeId) :
    (h.unregister token).2.on x = (h.on x).filter (· ≠ token) := by
  rw [on, on, List.filter_map, unregister, List.filter_filter, List.filter_filter]
  simp only [Bool.and_comm]
  rfl

/-- A handler can be taken away if it is on a scope. -/
theorem unregister_iff : (h.unregister token).1 = true ↔ ∃ x, token ∈ h.on x := by
  simp only [unregister, List.any_eq_true, decide_eq_true_eq, mem_on]
  constructor
  · rintro ⟨e, he, rfl⟩
    exact ⟨e.scope, he⟩
  · rintro ⟨x, hx⟩
    exact ⟨_, hx, rfl⟩

theorem on_transfer (h : HandlerTable) (hne : source ≠ target) (x : ScopeId) :
    (h.transfer source target).on x =
      if x = target then h.on target ++ h.on source else if x = source then [] else h.on x := by
  have hStays : ∀ y ≠ source, on ⟨h.handlers.filter (·.scope ≠ source), h.issued⟩ y = h.on y :=
    fun y hy => on_filter _ _ fun e he => by simpa [he] using hy
  have hMoved : ∀ e ∈ (h.handlers.filter (·.scope = source)).map ({ · with scope := target }),
      e.scope = target := List.forall_mem_map.mpr fun _ _ => rfl
  rw [transfer, on_append]
  split
  · rename_i hx
    rw [hx, hStays target hne.symm, on_eq_map _ hMoved, List.map_map]
    rfl
  · rename_i hx
    rw [on_eq_nil _ fun e he hEq => hx (hEq.symm.trans (hMoved e he)), List.append_nil]
    split
    · rename_i hSource
      exact on_eq_nil _ (by simp [hSource])
    · rename_i hSource
      exact hStays x hSource

theorem on_dropScopes (h : HandlerTable) (scopes : List ScopeId) (x : ScopeId) :
    (h.dropScopes scopes).on x = if x ∈ scopes then [] else h.on x := by
  rw [dropScopes]
  split
  · rename_i hx
    refine on_eq_nil _ fun e he hEq => ?_
    simp [hEq, hx] at he
  · rename_i hx
    exact on_filter _ _ fun e he => by simpa [he] using hx

theorem Given.register (hGiven : h.Given) (scope : ScopeId) : (h.register scope).2.Given := by
  have hTokens : (h.register scope).2.tokens = h.tokens ++ [h.issued] := by
    rw [tokens, HandlerTable.register, List.map_append]
    rfl
  constructor
  · rw [hTokens]
    refine List.nodup_append.mpr ⟨hGiven.nodup, List.nodup_singleton _, fun a ha b hb => ?_⟩
    exact List.mem_singleton.mp hb ▸ (hGiven.lt_issued a ha).ne
  · intro token ht
    rw [hTokens, List.mem_append, List.mem_singleton] at ht
    rcases ht with ht | rfl
    · exact (hGiven.lt_issued token ht).trans (Nat.lt_succ_self _)
    · exact Nat.lt_succ_self _

/-- Handlers that go leave the others with their tokens. -/
theorem Given.sublist {h' : HandlerTable} (hGiven : h.Given) (hTokens : h'.tokens.Sublist h.tokens)
    (hIssued : h'.issued = h.issued) : h'.Given where
  nodup := hGiven.nodup.sublist hTokens
  lt_issued token ht := hIssued ▸ hGiven.lt_issued token (hTokens.subset ht)

theorem Given.unregister (hGiven : h.Given) (token : Nat) : (h.unregister token).2.Given :=
  hGiven.sublist (List.filter_sublist.map _) rfl

theorem Given.dropScopes (hGiven : h.Given) (scopes : List ScopeId) : (h.dropScopes scopes).Given :=
  hGiven.sublist (List.filter_sublist.map _) rfl

/-- Handlers that move take their tokens with them. -/
theorem Given.transfer (hGiven : h.Given) (source target : ScopeId) :
    (h.transfer source target).Given := by
  have hTokens : (h.transfer source target).tokens.Perm h.tokens := by
    have hPerm := List.filter_append_perm (fun e : Handler => decide (e.scope ≠ source)) h.handlers
    rw [tokens, HandlerTable.transfer, List.map_append, List.map_map]
    refine .trans ?_ (hPerm.map Handler.token)
    rw [List.map_append]
    refine .append_left _ (.of_eq ?_)
    simp [Function.comp_def]
  exact ⟨hTokens.nodup_iff.mpr hGiven.nodup,
    fun token ht => hGiven.lt_issued token (hTokens.mem_iff.mp ht)⟩

end HandlerTable

namespace Session

variable {s s' first : Session} {id new x x' : ScopeId} {token : Nat} {d : Document}
  {ys : List Happening}

/-! ## Rebuilding -/

/-- What becomes of handlers when the scope `id` is built anew as `new`. -/
structure Moves (s : Session) (id new : ScopeId) (s' : Session) : Prop where
  /-- The handlers of the scope go to the new one, in their order. -/
  moved : s'.handlers.on new = s.handlers.on new ++ s.handlers.on id
  /-- Nothing is left on the scope and on what it owned. -/
  dropped : ∀ x, s.tree.arena.Reaches id x → s'.handlers.on x = []
  kept : ∀ x, ¬ s.tree.arena.Reaches id x → x ≠ new → s'.handlers.on x = s.handlers.on x
  /-- The new scope is none that was there before. -/
  fresh : s.tree.record? new = none ∧ ∃ r, s'.tree.record? new = some r

theorem handlers_rebuild (hRebuild : s.rebuild id d = .ok (new, s')) :
    ∃ gone, s.tree.rebuild id d = .ok (new, gone, s'.tree) ∧
      s'.handlers = (s.handlers.transfer id new).dropScopes gone := by
  rw [Session.rebuild] at hRebuild
  cases hTree : s.tree.rebuild id d with
  | error e =>
    rw [hTree] at hRebuild
    cases hRebuild
  | ok result =>
    obtain ⟨new', gone, tree⟩ := result
    rw [hTree] at hRebuild
    cases hRebuild
    exact ⟨gone, rfl, rfl⟩

theorem moves_rebuild (h : s.tree.Rooted) (hRebuild : s.rebuild id d = .ok (new, s')) :
    s.Moves id new s' := by
  obtain ⟨gone, hTree, hHandlers⟩ := handlers_rebuild hRebuild
  obtain ⟨⟨r, hr⟩, -, hGone⟩ := mem_gone_iff h hTree
  obtain ⟨hDead, hLive⟩ := new_rebuild h hTree
  have hne : id ≠ new := by
    rintro rfl
    rw [hr] at hDead
    cases hDead
  have hNotGone : new ∉ gone := fun hx => by
    obtain ⟨r, hr⟩ := live_of_gone h hTree hx
    rw [hr] at hDead
    cases hDead
  refine ⟨?_, fun x hx => ?_, fun x hx hxNew => ?_, hDead, hLive⟩
  · rw [hHandlers, HandlerTable.on_dropScopes, if_neg hNotGone, HandlerTable.on_transfer _ hne,
      if_pos rfl]
  · rw [hHandlers, HandlerTable.on_dropScopes, if_pos ((hGone x).mpr hx)]
  · have hxId : x ≠ id := fun hEq => hx (hEq ▸ .refl)
    rw [hHandlers, HandlerTable.on_dropScopes, if_neg (mt (hGone x).mp hx),
      HandlerTable.on_transfer _ hne, if_neg hxNew, if_neg hxId]

/-- A live scope can be built anew. -/
theorem exists_rebuild_of_isLive (hLive : s.tree.isLive id = true) (d : Document) :
    ∃ new s', s.rebuild id d = .ok (new, s') := by
  obtain ⟨r, hr⟩ := isLive_iff.mp hLive
  obtain ⟨new, gone, t', hTree⟩ := exists_rebuild hr d
  exact ⟨new, _, by rw [Session.rebuild, hTree]; rfl⟩

theorem isLive_of_rebuild (h : s.tree.Rooted) (hRebuild : s.rebuild id d = .ok (new, s')) :
    s.tree.isLive id = true := by
  obtain ⟨gone, hTree, -⟩ := handlers_rebuild hRebuild
  exact isLive_iff.mpr (mem_gone_iff h hTree).1

/-! ## One happening -/

/-- What a happening does with handlers. -/
inductive Shifts (s : Session) : Happening → Session → Prop
  | registered (id : ScopeId) :
      Shifts s (.register id) { s with handlers := (s.handlers.register id).2 }
  | unregistered (token : Nat) :
      Shifts s (.unregister token) { s with handlers := (s.handlers.unregister token).2 }
  | rebuilt {id new : ScopeId} {d : Document} {s' : Session}
      (hRebuild : s.rebuild id d = .ok (new, s')) : Shifts s (.rebuild id d) s'
  | apart {y : Happening} {s' : Session} (hRegister : ∀ id, y ≠ .register id)
      (hUnregister : ∀ token, y ≠ .unregister token)
      (hRebuild : ∀ id d, y = .rebuild id d → s.tree.isLive id = false)
      (hSame : s'.handlers = s.handlers) : Shifts s y s'

theorem shifts_happen (s : Session) (y : Happening) : Shifts s y (s.happen y) := by
  cases y with
  | register id => exact .registered id
  | unregister token => exact .unregistered token
  | rebuild id d =>
    rw [happen]
    cases hRebuild : s.rebuild id d with
    | ok result => exact .rebuilt hRebuild
    | error e =>
      refine .apart (by simp) (by simp) ?_ rfl
      rintro _ _ ⟨⟩
      rw [← Bool.not_eq_true]
      intro hLive
      obtain ⟨new, s', hOk⟩ := exists_rebuild_of_isLive hLive d
      cases hRebuild.symm.trans hOk
  | start id force =>
    refine .apart (by simp) (by simp) (by simp) ?_
    rw [happen]
    rcases start_cases s id force with hSame | ⟨r, -, -, -, hStart⟩
    · rw [hSame]
    · rw [hStart]
  | complete run values =>
    refine .apart (by simp) (by simp) (by simp) ?_
    rw [happen, complete]
    split <;> rfl
  | publish run target name data =>
    refine .apart (by simp) (by simp) (by simp) ?_
    rw [happen, publish]
    split <;> rfl
  | deliver panics =>
    refine .apart (by simp) (by simp) (by simp) ?_
    rw [happen, deliverPanicking_eq]
    rcases deliverNext_cases s with hSame | ⟨notice, rest, -, -, hNext⟩
    · rw [hSame]
    · rw [hNext]
  | disable id => exact .apart (by simp) (by simp) (by simp) rfl
  | listen => exact .apart (by simp) (by simp) (by simp) rfl
  | work tasks providers clock => exact .apart (by simp) (by simp) (by simp) rfl

/-- Where a happening leaves the handler of a token that was on a scope: there, unless it is taken away
or its scope is dropped, or on the new scope if its own is built anew. -/
inductive Carries (s : Session) (token : Nat) : Happening → ScopeId → ScopeId → Prop
  | stays {y : Happening} {x : ScopeId} (hTaken : y ≠ .unregister token)
      (hDropped : ∀ id d, y = .rebuild id d → s.tree.isLive id = true → ¬ s.tree.arena.Reaches id x) :
      Carries s token y x x
  | moves {id new : ScopeId} {d : Document} {s' : Session}
      (hRebuild : s.rebuild id d = .ok (new, s')) : Carries s token (.rebuild id d) id new

/-- A rebuilding takes handlers where they are carried. -/
theorem mem_on_rebuild (h : s.tree.Rooted) (hRebuild : s.rebuild id d = .ok (new, s')) :
    token ∈ s'.handlers.on x' ↔
      ∃ x, token ∈ s.handlers.on x ∧ Carries s token (.rebuild id d) x x' := by
  have hMoves := moves_rebuild h hRebuild
  have hLive := isLive_of_rebuild h hRebuild
  have hStays : ∀ x, ¬ s.tree.arena.Reaches id x → Carries s token (.rebuild id d) x x := fun x hx =>
    .stays (by simp) fun _ _ hEq _ => by
      cases hEq
      exact hx
  have hOutside : ¬ s.tree.arena.Reaches id new := fun hReaches => by
    obtain ⟨n, hn⟩ := reaches_iff_descends.mp hReaches
    obtain ⟨r, hr⟩ := h.live_of_descends (isLive_iff.mp hLive) hn
    cases hr.symm.trans hMoves.fresh.1
  constructor
  · intro hToken
    by_cases hNew : x' = new
    · rw [hNew, hMoves.moved, List.mem_append] at hToken
      rcases hToken with hToken | hToken
      · exact ⟨new, hToken, hNew ▸ hStays new hOutside⟩
      · exact ⟨id, hToken, hNew ▸ .moves hRebuild⟩
    · by_cases hReaches : s.tree.arena.Reaches id x'
      · rw [hMoves.dropped x' hReaches] at hToken
        cases hToken
      · rw [hMoves.kept x' hReaches hNew] at hToken
        exact ⟨x', hToken, hStays x' hReaches⟩
  · rintro ⟨x, hToken, hCarries⟩
    cases hCarries with
    | stays _ hDropped =>
      by_cases hNew : x' = new
      · rw [hNew, hMoves.moved]
        exact List.mem_append_left _ (hNew ▸ hToken)
      · rwa [hMoves.kept x' (hDropped id d rfl hLive) hNew]
    | moves hAgain =>
      obtain ⟨rfl, rfl⟩ := Prod.mk.inj (Except.ok.inj (hRebuild.symm.trans hAgain))
      rw [hMoves.moved]
      exact List.mem_append_right _ hToken

/-- The handlers after a happening are those that it has left, and one that has been registered. -/
theorem mem_on_happen (h : s.tree.Rooted) (y : Happening) :
    token ∈ (s.happen y).handlers.on x' ↔
      (∃ x, token ∈ s.handlers.on x ∧ Carries s token y x x') ∨
        y = .register x' ∧ token = s.handlers.issued := by
  have hShifts := shifts_happen s y
  generalize s.happen y = s' at hShifts
  cases hShifts with
  | registered id =>
    have hStays : ∀ x, Carries s token (.register id) x x := fun x => .stays (by simp) (by simp)
    have hOld : (∃ x, token ∈ s.handlers.on x ∧ Carries s token (.register id) x x') ↔
        token ∈ s.handlers.on x' := by
      constructor
      · rintro ⟨x, hToken, ⟨⟩⟩
        exact hToken
      · exact fun hToken => ⟨x', hToken, hStays x'⟩
    rw [hOld, HandlerTable.on_register]
    split
    · rename_i hx
      simp [hx]
    · rename_i hx
      simp [Ne.symm hx]
  | unregistered taken =>
    rw [HandlerTable.on_unregister]
    constructor
    · intro hToken
      obtain ⟨hToken, hNot⟩ := List.mem_filter.mp hToken
      refine .inl ⟨x', hToken, .stays (fun hy => ?_) (by simp)⟩
      exact of_decide_eq_true hNot (Happening.unregister.inj hy).symm
    · rintro (⟨x, hToken, hCarries⟩ | ⟨⟨⟩, -⟩)
      cases hCarries with
      | stays hTaken =>
        exact List.mem_filter.mpr ⟨hToken, decide_eq_true fun hEq => hTaken (hEq ▸ rfl)⟩
  | rebuilt hRebuild =>
    rw [mem_on_rebuild h hRebuild]
    simp
  | apart hRegister hUnregister hRebuild hSame =>
    rw [hSame]
    constructor
    · refine fun hToken => .inl ⟨x', hToken, .stays (hUnregister token) fun id d hy hLive => ?_⟩
      cases (hRebuild id d hy).symm.trans hLive
    · rintro (⟨x, hToken, hCarries⟩ | ⟨hy, -⟩)
      · cases hCarries with
        | stays => exact hToken
        | @moves _ _ d _ hAgain => cases (hRebuild x d rfl).symm.trans (isLive_of_rebuild h hAgain)
      · cases hRegister x' hy

theorem given_happen (hGiven : s.handlers.Given) (y : Happening) : (s.happen y).handlers.Given := by
  have hShifts := shifts_happen s y
  generalize s.happen y = s' at hShifts
  cases hShifts with
  | registered id => exact hGiven.register id
  | unregistered taken => exact hGiven.unregister taken
  | rebuilt hRebuild =>
    obtain ⟨gone, -, hHandlers⟩ := handlers_rebuild hRebuild
    rw [hHandlers]
    exact (hGiven.transfer _ _).dropScopes gone
  | apart _ _ _ hSame => exact hSame ▸ hGiven

def Happening.isRegistration : Happening → Bool
  | .register _ => true
  | _ => false

theorem issued_happen (s : Session) (y : Happening) :
    (s.happen y).handlers.issued = s.handlers.issued + y.isRegistration.toNat := by
  have hShifts := shifts_happen s y
  generalize s.happen y = s' at hShifts
  cases hShifts with
  | registered id => rfl
  | unregistered taken => rfl
  | rebuilt hRebuild =>
    obtain ⟨gone, -, hHandlers⟩ := handlers_rebuild hRebuild
    rw [hHandlers]
    rfl
  | apart hRegister _ _ hSame =>
    have hNot : y.isRegistration = false := by
      cases y with
      | register id => cases hRegister id rfl
      | _ => rfl
    rw [hSame, hNot]
    rfl

/-! ## Any happenings -/

/-- The handler of a token has been registered while things happened, and they have left it on a
scope. -/
inductive Sits (first : Session) (token : Nat) : List Happening → ScopeId → Prop
  | registered {ys : List Happening} {x : ScopeId}
      (hToken : ((first.happenAll ys).handlers.register x).1 = token) :
      Sits first token (ys ++ [.register x]) x
  | carried {ys : List Happening} {y : Happening} {x x' : ScopeId} (hSits : Sits first token ys x)
      (hCarries : Carries (first.happenAll ys) token y x x') : Sits first token (ys ++ [y]) x'

theorem not_sits_nil : ¬ Sits first token [] x := by
  intro hSits
  generalize hNil : ([] : List Happening) = ys at hSits
  cases hSits <;> simp at hNil

theorem sits_concat_iff {y : Happening} : Sits first token (ys ++ [y]) x' ↔
    (∃ x, Sits first token ys x ∧ Carries (first.happenAll ys) token y x x') ∨
      y = .register x' ∧ token = (first.happenAll ys).handlers.issued := by
  constructor
  · intro hSits
    generalize hAll : ys ++ [y] = all at hSits
    cases hSits with
    | registered hToken =>
      obtain ⟨rfl, hEq⟩ := List.append_inj' hAll rfl
      exact .inr ⟨List.singleton_inj.mp hEq, hToken.symm⟩
    | carried hSits hCarries =>
      obtain ⟨rfl, hEq⟩ := List.append_inj' hAll rfl
      exact .inl ⟨_, hSits, List.singleton_inj.mp hEq ▸ hCarries⟩
  · rintro (⟨x, hSits, hCarries⟩ | ⟨rfl, rfl⟩)
    · exact .carried hSits hCarries
    · exact .registered rfl

theorem happenAll_concat (s : Session) (ys : List Happening) (y : Happening) :
    s.happenAll (ys ++ [y]) = (s.happenAll ys).happen y := by
  rw [happenAll, List.foldl_append]
  rfl

/-- Handlers are registered only on ids that scopes have had. -/
def OnScopes (first : Session) (ys : List Happening) : Prop :=
  ∀ earlier x, earlier ++ [.register x] <+: ys → 1 ≤ first.scopesOf x earlier

/-- What holds of the handlers once things have happened to a session. -/
structure Registers (first : Session) (ys : List Happening) (s : Session) : Prop where
  /-- The tokens are given in turn, so that none is given twice. -/
  issued : ∀ x, (s.handlers.register x).1 = ys.countP (·.isRegistration)
  /-- The handlers on a scope are those that have been left there, each of them once. -/
  on : ∀ x, (s.handlers.on x).Nodup ∧ ∀ token, token ∈ s.handlers.on x ↔ Sits first token ys x
  one : ∀ token x x', Sits first token ys x → Sits first token ys x' → x = x'
  /-- A handler is registered behind those of its scope. -/
  register : ∀ x x', (s.handlers.register x).2.on x' =
    if x' = x then s.handlers.on x' ++ [(s.handlers.register x).1] else s.handlers.on x'
  /-- Taking a handler away says whether it was there, and leaves all others. -/
  unregister : ∀ token,
    ((s.handlers.unregister token).1 = true ↔ ∃ x, Sits first token ys x) ∧
    ∀ x, (s.handlers.unregister token).2.on x = (s.handlers.on x).filter (· ≠ token)
  /-- Any live scope can be built anew. The handlers of the new one are just those of the old one, until
  the generations of its slot start over. -/
  rebuild : ∀ id d, s.tree.isLive id = true → ∃ new s', s.rebuild id d = .ok (new, s') ∧
    s.Moves id new s' ∧ (OnScopes first ys → first.drops new.index (ys ++ [.rebuild id d]) < 2 ^ 32 →
      s'.handlers.on new = s.handlers.on id)
  /-- Nothing else can be built anew. -/
  fails : ∀ id d, s.tree.isLive id = false → ∃ e, s.rebuild id d = .error e

theorem scopesOf_mono (first : Session) (x : ScopeId) (ys zs : List Happening) :
    first.scopesOf x ys ≤ first.scopesOf x (ys ++ zs) := by
  rw [scopesOf, scopesOf, births_append, ← Nat.add_assoc]
  exact Nat.le_add_right _ _

section Document

variable (d : Document) (functions : Registry) (config : EngineConfig) (providers : Directory)

theorem accounted_happenAll (ys : List Happening) :
    let first := ofTree (.build d) functions config providers
    Accounted (first.scopesOf · ys) (first.drops · ys) (first.happenAll ys) := by
  intro first
  have h := (accounted_build d functions config providers).happenAll ys
  simp only [Pi.zero_apply, Nat.zero_add] at h
  exact h

/-- The handlers on a scope have unlike tokens and are those that have been left there. -/
theorem given_and_sits (ys : List Happening) :
    let first := ofTree (.build d) functions config providers
    let s := first.happenAll ys
    s.handlers.Given ∧ s.handlers.issued = ys.countP (·.isRegistration) ∧
      ∀ token x, token ∈ s.handlers.on x ↔ Sits first token ys x := by
  intro first s
  induction ys using List.reverseRecOn with
  | nil =>
    refine ⟨⟨List.nodup_nil, fun _ hToken => by cases hToken⟩, rfl, fun token x => ?_⟩
    exact iff_of_false List.not_mem_nil not_sits_nil
  | append_singleton ys y ih =>
    obtain ⟨hGiven, hIssued, hOn⟩ := ih
    have hRooted := (accounted_happenAll d functions config providers ys).rooted
    have hHappen : s = (first.happenAll ys).happen y := happenAll_concat first ys y
    rw [hHappen]
    refine ⟨given_happen hGiven y, ?_, fun token x' => ?_⟩
    · rw [issued_happen, hIssued, List.countP_append, List.countP_singleton]
      cases y.isRegistration <;> rfl
    · rw [mem_on_happen hRooted, sits_concat_iff]
      exact or_congr_left (exists_congr fun x => and_congr_left fun _ => hOn token x)

/-- Handlers are on scopes that there have been. -/
theorem one_le_of_sits {ys : List Happening} {token : Nat} {x : ScopeId} :
    let first := ofTree (.build d) functions config providers
    OnScopes first ys → Sits first token ys x → 1 ≤ first.scopesOf x ys := by
  intro first hOnScopes hSits
  induction hSits with
  | @registered ys x => exact (hOnScopes ys x List.prefix_rfl).trans (scopesOf_mono _ _ _ _)
  | @carried ys y x x' _ hCarries ih =>
    have hBefore : OnScopes first ys := fun earlier x hPrefix =>
      hOnScopes earlier x (hPrefix.trans (List.prefix_append ys [y]))
    have h := accounted_happenAll d functions config providers ys
    have hAfter := accounted_happenAll d functions config providers (ys ++ [y])
    cases hCarries with
    | stays => exact (ih hBefore).trans (scopesOf_mono _ _ _ _)
    | moves hRebuild =>
      obtain ⟨-, r, hr⟩ := (moves_rebuild h.rooted hRebuild).fresh
      refine hAfter.counted.live x' r ?_
      rw [happenAll_concat, happen, hRebuild]
      exact hr

/-- Whatever happens to the session of a document, in any order: handlers go with a scope that is built
anew, in their order and with their tokens, those on what it owned are dropped, and all others stay.
A token can be used to take its handler away just as long as the handler is on a scope. -/
theorem registrations_kept (ys : List Happening) :
    let first := ofTree (.build d) functions config providers
    Registers first ys (first.happenAll ys) := by
  intro first
  obtain ⟨hGiven, hIssued, hOn⟩ := given_and_sits d functions config providers ys
  have h := accounted_happenAll d functions config providers ys
  refine
    { issued := fun x => hIssued
      on := fun x => ⟨hGiven.nodup_on x, fun token => hOn token x⟩
      one := fun token x x' hx hx' => hGiven.eq_of_mem_on ((hOn token x).mpr hx) ((hOn token x').mpr hx')
      register := fun x x' => HandlerTable.on_register _ x x'
      unregister := fun token => ⟨?_, HandlerTable.on_unregister _ token⟩
      rebuild := fun id d' hLive => ?_
      fails := fun id d' hDead => ?_ }
  · rw [HandlerTable.unregister_iff]
    exact exists_congr (hOn token)
  · obtain ⟨new, s', hRebuild⟩ := exists_rebuild_of_isLive hLive d'
    have hMoves := moves_rebuild h.rooted hRebuild
    refine ⟨new, s', hRebuild, hMoves, fun hOnScopes hDrops => ?_⟩
    -- The new scope is the first one of its id, so that no handler can have been registered there.
    have hFirst : first.scopesOf new ys = 0 := by
      obtain ⟨hDead, r, hr⟩ := hMoves.fresh
      have hAfter := accounted_happenAll d functions config providers (ys ++ [.rebuild id d'])
      have hOne : first.scopesOf new (ys ++ [.rebuild id d']) ≤ 1 :=
        (hAfter.counted.once new hDrops).1
      have hBorn : (first.happenAll ys).isBorn new (.rebuild id d') = true :=
        isBorn_of_none hDead (by rw [happen, hRebuild]; exact hr)
      rw [scopesOf, births_append, births, births, hBorn, Bool.toNat_true] at hOne
      rw [scopesOf]
      omega
    have hNone : (first.happenAll ys).handlers.on new = [] := by
      refine List.eq_nil_iff_forall_not_mem.mpr fun token hToken => ?_
      have hSome : 1 ≤ first.scopesOf new ys :=
        one_le_of_sits d functions config providers hOnScopes ((hOn token new).mp hToken)
      omega
    rw [hMoves.moved, hNone, List.nil_append]
  · cases hRecord : (first.happenAll ys).tree.record? id with
    | some r => cases hDead.symm.trans (isLive_iff.mpr ⟨r, hRecord⟩)
    | none => exact ⟨_, by rw [Session.rebuild, ScopeTree.rebuild, hRecord]; rfl⟩

end Document

end Session

end FormulaOutline
