import FormulaOutline.Proofs.Scope.WellFormed

/-!
# What time does to scopes

Records of live scopes only grow older, and the id of a scope that is gone stays behind the
generation of its slot.

* `EvalState.Moves`: the moves of an evaluation.
* `Arena.Past`: an id whose slot has a later generation.
* `Steps`: one change of a tree; `steps_modify`, `steps_disable` and `steps_rebuild` are its cases.
* `Ages`: any number of changes.
-/

namespace FormulaOutline

/-! ## Records -/

namespace EvalState

/-- The moves of an evaluation: it begins, ends, and may end again. -/
inductive Moves : EvalState → EvalState → Prop
  | stay (s : EvalState) : Moves s s
  | begin : Moves idle pending
  | finish (values : List Value) : Moves pending (resolved values)
  | again (values values' : List Value) : Moves (resolved values) (resolved values')

/-- How many moves away from its beginning an evaluation is at least. -/
def phase : EvalState → Nat
  | idle => 0
  | pending => 1
  | resolved _ => 2

theorem Moves.phase_le {s s' : EvalState} (h : s.Moves s') : s.phase ≤ s'.phase := by
  cases h with
  | stay => exact Nat.le_refl _
  | begin => exact Nat.zero_le _
  | finish => exact Nat.le_succ _
  | again => exact Nat.le_refl _

theorem phase_pos_iff {s : EvalState} : 0 < s.phase ↔ s.isIdle = false := by
  cases s <;> simp [phase, isIdle]

end EvalState

namespace ScopeRecord

/-- One change of the record of a live scope. -/
structure Steps (r r' : ScopeRecord) : Prop where
  bullet : r'.bullet = r.bullet
  epoch : r.epoch ≤ r'.epoch
  disabled : r.disabled = true → r'.disabled = true
  moves : r.state.Moves r'.state
  /-- New values are one for each part of the bullet. -/
  filled : ∀ values, r'.state = .resolved values →
    r.state = .resolved values ∨ values.length = r.bullet.parts.length

/-- Any number of changes of the record of a live scope. -/
structure Ages (r r' : ScopeRecord) : Prop where
  bullet : r'.bullet = r.bullet
  epoch : r.epoch ≤ r'.epoch
  disabled : r.disabled = true → r'.disabled = true
  phase : r.state.phase ≤ r'.state.phase

variable {r r' r'' : ScopeRecord}

theorem Steps.refl (r : ScopeRecord) : r.Steps r where
  bullet := rfl
  epoch := Nat.le_refl _
  disabled := id
  moves := .stay _
  filled := fun _ h => Or.inl h

theorem Steps.ages (h : r.Steps r') : r.Ages r' :=
  ⟨h.bullet, h.epoch, h.disabled, h.moves.phase_le⟩

theorem Ages.refl (r : ScopeRecord) : r.Ages r := (Steps.refl r).ages

theorem Ages.trans (h : r.Ages r') (h' : r'.Ages r'') : r.Ages r'' where
  bullet := h'.bullet.trans h.bullet
  epoch := Nat.le_trans h.epoch h'.epoch
  disabled := fun hd => h'.disabled (h.disabled hd)
  phase := Nat.le_trans h.phase h'.phase

theorem steps_disable (r : ScopeRecord) : r.Steps r.disable where
  bullet := rfl
  epoch := Nat.le_succ _
  disabled := fun _ => rfl
  moves := .stay _
  filled := fun _ h => Or.inl h

/-- The records agree on everything but the links to other scopes. -/
def SameButLinks (r r' : ScopeRecord) : Prop :=
  { r' with children := r.children, transcluded := r.transcluded, named := r.named } = r

theorem SameButLinks.refl (r : ScopeRecord) : r.SameButLinks r := rfl

theorem SameButLinks.state (h : r.SameButLinks r') : r'.state = r.state :=
  (congrArg ScopeRecord.state h :)

theorem SameButLinks.results (h : r.SameButLinks r') : r'.results = r.results :=
  (congrArg ScopeRecord.results h :)

theorem SameButLinks.disabled (h : r.SameButLinks r') : r'.disabled = r.disabled :=
  (congrArg ScopeRecord.disabled h :)

theorem SameButLinks.steps (h : r.SameButLinks r') : r.Steps r' where
  bullet := (congrArg ScopeRecord.bullet h :)
  epoch := Nat.le_of_eq (congrArg ScopeRecord.epoch h :).symm
  disabled := fun hd => h.disabled.trans hd
  moves := h.state ▸ .stay _
  filled := fun _ hv => Or.inl (h.state.symm.trans hv)

end ScopeRecord

/-! ## Generations that only grow -/

namespace Arena

variable {a a' : Arena ScopeRecord} {x : ScopeId} {r : ScopeRecord}

/-- The slot of an id has a later generation. -/
def Past (a : Arena ScopeRecord) (x : ScopeId) : Prop :=
  x.generation.toNat < a.generation x.index

theorem Past.get?_eq_none (h : a.Past x) : a.get? x = none := by
  cases hx : a.get? x with
  | none => rfl
  | some r =>
    rw [Past, generation_of_get? hx] at h
    exact (Nat.lt_irrefl _ h).elim

theorem Past.mono (h : a.Past x) (hg : ∀ i, a.generation i ≤ a'.generation i) : a'.Past x :=
  Nat.lt_of_lt_of_le h (hg x.index)

/-- An id of a slot is counted. -/
def uses (ids : List ScopeId) (i : Nat) : Nat := ids.countP (·.index == i)

theorem uses_append (ids ids' : List ScopeId) (i : Nat) :
    uses (ids ++ ids') i = uses ids i + uses ids' i :=
  List.countP_append

theorem uses_pos {ids : List ScopeId} (h : x ∈ ids) : 0 < uses ids x.index :=
  List.countP_pos_iff.mpr ⟨x, h, beq_self_eq_true _⟩

end Arena

/-! ## Trees -/

namespace ScopeTree

variable {t t' t'' : ScopeTree} {id x : ScopeId} {r r' : ScopeRecord}

/-- One change of a tree: a live scope goes for good or its record makes a step, and new scopes have
not been evaluated. -/
structure Steps (t t' : ScopeTree) : Prop where
  generation : ∀ i, t.arena.generation i ≤ t'.arena.generation i
  kept : ∀ x r, t.record? x = some r →
    t'.arena.Past x ∨ ∃ r', t'.record? x = some r' ∧ r.Steps r'
  born : ∀ x r', t'.record? x = some r' → (∃ r, t.record? x = some r) ∨ r'.state = .idle

/-- Any number of changes of a tree. -/
structure Ages (t t' : ScopeTree) : Prop where
  generation : ∀ i, t.arena.generation i ≤ t'.arena.generation i
  kept : ∀ x r, t.record? x = some r →
    t'.arena.Past x ∨ ∃ r', t'.record? x = some r' ∧ r.Ages r'

theorem Steps.refl (t : ScopeTree) : t.Steps t where
  generation := fun _ => Nat.le_refl _
  kept := fun _ r hr => Or.inr ⟨r, hr, .refl r⟩
  born := fun _ r hr => Or.inl ⟨r, hr⟩

theorem Steps.ages (h : t.Steps t') : t.Ages t' where
  generation := h.generation
  kept := by
    intro x r hr
    rcases h.kept x r hr with hp | ⟨r', hr', hs⟩
    · exact Or.inl hp
    · exact Or.inr ⟨r', hr', hs.ages⟩

theorem Ages.refl (t : ScopeTree) : t.Ages t := (Steps.refl t).ages

theorem Ages.trans (h : t.Ages t') (h' : t'.Ages t'') : t.Ages t'' where
  generation := fun i => Nat.le_trans (h.generation i) (h'.generation i)
  kept := by
    intro x r hr
    rcases h.kept x r hr with hp | ⟨r', hr', hs⟩
    · exact Or.inl (hp.mono h'.generation)
    · rcases h'.kept x r' hr' with hp | ⟨r'', hr'', hs'⟩
      · exact Or.inl hp
      · exact Or.inr ⟨r'', hr'', hs.trans hs'⟩

/-- A scope that is live at both times has aged in between. -/
theorem Ages.record (h : t.Ages t') (hr : t.record? x = some r) (hr' : t'.record? x = some r') :
    r.Ages r' := by
  rcases h.kept x r hr with hp | ⟨s, hs, hrs⟩
  · rw [show t'.record? x = none from hp.get?_eq_none] at hr'
    cases hr'
  · rw [hr'] at hs
    cases hs
    exact hrs

theorem Steps.record (h : t.Steps t') (hr : t.record? x = some r) (hr' : t'.record? x = some r') :
    r.Steps r' := by
  rcases h.kept x r hr with hp | ⟨s, hs, hrs⟩
  · rw [show t'.record? x = none from hp.get?_eq_none] at hr'
    cases hr'
  · rw [hr'] at hs
    cases hs
    exact hrs

/-! ## Changes in place -/

/-- A change that leaves every scope in its place. -/
theorem steps_in_place (hg : t'.arena.generation = t.arena.generation)
    (hrecord : ∀ x, ∃ f : ScopeRecord → ScopeRecord, t'.record? x = (t.record? x).map f ∧
      ∀ r, t.record? x = some r → r.Steps (f r)) : t.Steps t' where
  generation := fun i => Nat.le_of_eq (congrFun hg i).symm
  kept := by
    intro x r hr
    obtain ⟨f, hx, hf⟩ := hrecord x
    rw [hr, Option.map_some] at hx
    exact Or.inr ⟨f r, hx, hf r hr⟩
  born := by
    intro x r' hr'
    obtain ⟨f, hx, -⟩ := hrecord x
    rw [hr'] at hx
    obtain ⟨r, hr, -⟩ := Option.map_eq_some_iff.mp hx.symm
    exact Or.inl ⟨r, hr⟩

theorem record?_modify (f : ScopeRecord → ScopeRecord) :
    (t.modify id f).record? x = if x = id then (t.record? id).map f else t.record? x :=
  Arena.get?_modify f x

/-- A record that is found after the change of one record. -/
theorem exists_of_record?_modify {f : ScopeRecord → ScopeRecord} {r : ScopeRecord}
    (hr : (t.modify id f).record? x = some r) :
    ∃ r', t.record? x = some r' ∧ ((x ≠ id ∧ r = r') ∨ (x = id ∧ r = f r')) := by
  rw [record?_modify] at hr
  split at hr
  · rename_i hScope
    obtain ⟨r', hr', rfl⟩ := Option.map_eq_some_iff.1 hr
    exact ⟨r', hScope ▸ hr', .inr ⟨hScope, rfl⟩⟩
  · rename_i hOther
    exact ⟨r, hr, .inl ⟨hOther, rfl⟩⟩

theorem steps_modify {f : ScopeRecord → ScopeRecord}
    (hf : ∀ r, t.record? id = some r → r.Steps (f r)) : t.Steps (t.modify id f) := by
  refine steps_in_place (Arena.generation_modify t.arena id f) ?_
  intro x
  by_cases hx : x = id
  · subst hx
    exact ⟨f, by rw [record?_modify, if_pos rfl], hf⟩
  · refine ⟨fun r => r, ?_, fun r _ => .refl r⟩
    rw [record?_modify, if_neg hx]
    simp

theorem generation_modifyAll (ids : List ScopeId) (f : ScopeRecord → ScopeRecord) :
    (t.modifyAll ids f).arena.generation = t.arena.generation := by
  induction ids generalizing t with
  | nil => rfl
  | cons id rest ih =>
    show ((t.modify id f).modifyAll rest f).arena.generation = t.arena.generation
    rw [ih]
    exact Arena.generation_modify t.arena id f

/-- Each of several scopes is changed once. -/
theorem record?_modifyAll {ids : List ScopeId} (hids : ids.Nodup)
    (f : ScopeRecord → ScopeRecord) (x : ScopeId) :
    (t.modifyAll ids f).record? x = if x ∈ ids then (t.record? x).map f else t.record? x := by
  induction ids generalizing t with
  | nil => simp [modifyAll]
  | cons id rest ih =>
    rw [List.nodup_cons] at hids
    show ((t.modify id f).modifyAll rest f).record? x = _
    rw [ih hids.2, record?_modify]
    by_cases hx : x = id
    · subst hx
      rw [if_neg hids.1, if_pos rfl, if_pos List.mem_cons_self]
    · rw [if_neg hx]
      simp only [List.mem_cons, hx, false_or]

theorem record?_disable (h : t.Rooted) (id x : ScopeId) :
    (t.disable id).record? x =
      if x ∈ t.owned id then (t.record? x).map .disable else t.record? x :=
  record?_modifyAll (nodup_owned h id) _ x

theorem steps_disable (h : t.Rooted) (id : ScopeId) : t.Steps (t.disable id) := by
  refine steps_in_place (generation_modifyAll _ _) ?_
  intro x
  rw [record?_disable h]
  by_cases hx : x ∈ t.owned id
  · exact ⟨_, if_pos hx, fun r _ => r.steps_disable⟩
  · refine ⟨fun r => r, ?_, fun r _ => .refl r⟩
    rw [if_neg hx]
    simp

/-- What is disabled is live, and its record says so afterwards. -/
theorem disabled_of_mem (h : t.Rooted) (hx : x ∈ t.owned id) :
    ∃ r, (t.disable id).record? x = some r ∧ r.disabled = true := by
  obtain ⟨hid, n, -, hn⟩ := (mem_walkWithin_iff (by simp) h).mp hx
  obtain ⟨r, hr⟩ := h.live_of_descends hid hn
  exact ⟨r.disable, by rw [record?_disable h, if_pos hx, hr, Option.map_some], rfl⟩

/-! ## Building -/

theorem generation_build (d : Document) (i : Nat) : (build d).arena.generation i = 0 := by
  obtain ⟨hg, -⟩ := Blueprint.plant_grown Arena.sound_empty none false (d.unfold [] d.root)
    (d.keyed_unfold [] d.root)
  exact congrFun hg.generation i

/-- In a tree that has just been built evaluation has not touched a record. -/
theorem shape_build (d : Document) (hr : (build d).record? x = some r) : r.shape = r := by
  obtain ⟨hg, -⟩ := Blueprint.plant_grown Arena.sound_empty none false (d.unfold [] d.root)
    (d.keyed_unfold [] d.root)
  exact hg.fresh x r (Arena.get?_empty x) hr

theorem state_build (d : Document) (hr : (build d).record? x = some r) : r.state = .idle :=
  (congrArg ScopeRecord.state (shape_build d hr)).symm

/-! ## Rebuilding -/

/-- Dropping live scopes raises the generation of their slots by the number of scopes dropped there;
generations start over at `2 ^ 32`. -/
theorem generation_freeAll_mod {ids : List ScopeId} (hids : ids.Nodup)
    (hlive : ∀ x ∈ ids, ∃ r, t.record? x = some r) (i : Nat) :
    (t.freeAll ids).arena.generation i =
      (t.arena.generation i + Arena.uses ids i) % 2 ^ 32 := by
  induction ids generalizing t with
  | nil => exact (Nat.mod_eq_of_lt (t.arena.generation_lt i)).symm
  | cons id rest ih =>
    rw [List.nodup_cons] at hids
    obtain ⟨r, hr⟩ := hlive id List.mem_cons_self
    have huses : Arena.uses (id :: rest) i =
        Arena.uses rest i + if i = id.index then 1 else 0 := by
      simp only [Arena.uses, List.countP_cons, beq_iff_eq, eq_comm (a := i)]
    have hgen : (t.arena.free id).2.generation i =
        (t.arena.generation i + if i = id.index then 1 else 0) % 2 ^ 32 := by
      rw [Arena.generation_free hr]
      split
      · rename_i hi
        rw [hi, Arena.generation_of_get? hr]
        exact UInt32.toNat_add _ _
      · exact (Nat.mod_eq_of_lt (t.arena.generation_lt i)).symm
    rw [freeAll_cons, ih hids.2]
    · change ((t.arena.free id).2.generation i + _) % _ = _
      rw [hgen, huses, Nat.mod_add_mod]
      congr 1
      omega
    · intro x hx
      obtain ⟨s, hs⟩ := hlive x (List.mem_cons_of_mem _ hx)
      refine ⟨s, ?_⟩
      show (t.arena.free id).2.get? x = some s
      rw [Arena.get?_free, if_neg]
      · exact hs
      · rintro rfl
        exact hids.1 hx

section Rebuild

variable {d : Document} {new : ScopeId} {gone : List ScopeId} (h : t.Rooted)
  (hrebuild : t.rebuild id d = .ok (new, gone, t'))
  (hwrap : ∀ i, t.arena.generation i + Arena.uses gone i < 2 ^ 32)
include h hrebuild

/-- What a rebuilding drops is what the scope owns. -/
theorem mem_gone_iff : (∃ r, t.record? id = some r) ∧ gone.Nodup ∧
    ∀ x, x ∈ gone ↔ t.arena.Reaches id x := by
  obtain ⟨r, -, hr, rfl, -⟩ := rebuild_cases hrebuild
  exact ⟨⟨r, hr⟩, nodup_owned h id, fun x => mem_owned_iff h ⟨r, hr⟩⟩

theorem live_of_gone (hx : x ∈ gone) : ∃ r, t.record? x = some r := by
  obtain ⟨hid, -, hmem⟩ := mem_gone_iff h hrebuild
  obtain ⟨n, hn⟩ := reaches_iff_descends.mp ((hmem x).mp hx)
  exact h.live_of_descends hid hn

/-- After a rebuilding a scope is one that was not dropped, with its record up to links, or has
not been there before, and nothing has happened to it. -/
theorem record?_rebuild : (∀ x r, t.record? x = some r → x ∉ gone →
      ∃ r', t'.record? x = some r' ∧ r.SameButLinks r') ∧
    (∀ x r', t'.record? x = some r' → (∃ r, t.record? x = some r) ∨ r'.shape = r') ∧
    t'.arena.generation = (t.freeAll gone).arena.generation := by
  obtain ⟨r, arena, hr, rfl, hplant, hcase⟩ := rebuild_cases hrebuild
  obtain ⟨hg, -⟩ := Blueprint.plant_grown (sound_freeAll h.sound (t.owned id)) r.parent
    r.transclusion _ (d.keyed_unfold ((t.ancestors id).map (·.2.node)) r.node)
  rw [hplant] at hg
  simp only at hg
  have hleft : ∀ x s, t.record? x = some s → x ∉ t.owned id → arena.get? x = some s := by
    intro x s hs hx
    refine hg.kept x s ?_
    rw [get?_freeAll, if_neg hx]
    exact hs
  have hborn : ∀ x s, arena.get? x = some s → (∃ s, t.record? x = some s) ∨ s.shape = s := by
    intro x s hs
    rcases hg.new_or_kept hs with hnew | hkept
    · exact Or.inr (hg.fresh x s hnew hs)
    · exact Or.inl ⟨s, ((get?_cleared h hr).mp hkept).2⟩
  rcases hcase with ⟨-, rfl⟩ | ⟨owner, hp, rfl⟩
  · exact ⟨fun x s hs hx => ⟨s, hleft x s hs hx, .refl s⟩, hborn, hg.generation⟩
  · obtain ⟨ro, hro, hmem⟩ := h.owns_of_parent hr hp
    have howner := owner_kept h hr hro hmem hg
    obtain ⟨named, hrecord, -⟩ := get?_relink ⟨arena, t.root⟩ new (h.linked owner ro hro)
      hr hmem howner
    refine ⟨?_, ?_, ?_⟩
    · intro x s hs hx
      by_cases hxo : x = owner
      · subst hxo
        obtain rfl : ro = s := Option.some.inj (hro.symm.trans hs)
        exact ⟨_, (hrecord x).trans (if_pos rfl), rfl⟩
      · exact ⟨s, (hrecord x).trans ((if_neg hxo).trans (hleft x s hs hx)), .refl s⟩
    · intro x s hs
      have hx := (hrecord x).symm.trans hs
      by_cases hxo : x = owner
      · exact Or.inl ⟨ro, hxo ▸ hro⟩
      · rw [if_neg hxo] at hx
        exact hborn x s hx
    · rw [← hg.generation]
      exact (Arena.generation_modify _ _ _).trans (Arena.generation_modify _ _ _)

/-- What a rebuilding drops is not live after it, whatever is made in its slot. -/
theorem record?_of_gone (hx : x ∈ gone) : t'.record? x = none := by
  obtain ⟨-, -, hgen⟩ := record?_rebuild h hrebuild
  obtain ⟨r, hr⟩ := live_of_gone h hrebuild hx
  exact (vacated_freeAll h.sound hx hr).get?_eq_none hgen

/-- The id of the new scope is not that of a scope before, also not of one that is dropped. -/
theorem new_rebuild : t.record? new = none ∧ ∃ r', t'.record? new = some r' := by
  have hLive : (t.freeAll gone).arena.get? new = none ∧ ∃ r', t'.record? new = some r' := by
    obtain ⟨r, arena, hr, rfl, hplant, hcase⟩ := rebuild_cases hrebuild
    obtain ⟨hg, -⟩ := Blueprint.plant_grown (sound_freeAll h.sound (t.owned id)) r.parent
      r.transclusion _ (d.keyed_unfold ((t.ancestors id).map (·.2.node)) r.node)
    rw [hplant] at hg
    have hnew := List.mem_singleton_self new
    obtain ⟨s, hs⟩ := hg.tops_live new hnew
    refine ⟨hg.tops_new new hnew, ?_⟩
    rcases hcase with ⟨-, rfl⟩ | ⟨owner, hp, rfl⟩
    · exact ⟨s, hs⟩
    · obtain ⟨ro, hro, hmem⟩ := h.owns_of_parent hr hp
      have howner := owner_kept h hr hro hmem hg
      obtain ⟨named, hrecord, -⟩ := get?_relink ⟨arena, t.root⟩ new (h.linked owner ro hro)
        hr hmem howner
      obtain ⟨s', hs', -⟩ := face_relink h hr hro hmem hg hrecord hs
      exact ⟨s', hs'⟩
  obtain ⟨hfree, r', hr'⟩ := hLive
  have hout : new ∉ gone := fun hx => by
    rw [record?_of_gone h hrebuild hx] at hr'
    cases hr'
  rw [get?_freeAll, if_neg hout] at hfree
  exact ⟨hfree, r', hr'⟩

theorem generation_rebuild_mod (i : Nat) :
    t'.arena.generation i = (t.arena.generation i + Arena.uses gone i) % 2 ^ 32 := by
  obtain ⟨-, -, hgen⟩ := record?_rebuild h hrebuild
  obtain ⟨-, hnodup, -⟩ := mem_gone_iff h hrebuild
  rw [hgen, generation_freeAll_mod hnodup fun x hx => live_of_gone h hrebuild hx]

include hwrap

theorem generation_rebuild (i : Nat) :
    t'.arena.generation i = t.arena.generation i + Arena.uses gone i := by
  rw [generation_rebuild_mod h hrebuild, Nat.mod_eq_of_lt (hwrap i)]

/-- What a rebuilding drops is gone for good. -/
theorem past_of_gone (hx : x ∈ gone) : t'.arena.Past x := by
  obtain ⟨r, hr⟩ := live_of_gone h hrebuild hx
  have hgen := Arena.generation_of_get? hr
  have huses := Arena.uses_pos hx
  rw [Arena.Past, generation_rebuild h hrebuild hwrap]
  omega

theorem steps_rebuild : t.Steps t' := by
  obtain ⟨hleft, hborn, -⟩ := record?_rebuild h hrebuild
  refine ⟨?_, ?_, fun x r' hr' => (hborn x r' hr').imp_right fun hFresh => ?_⟩
  · intro i
    rw [generation_rebuild h hrebuild hwrap]
    exact Nat.le_add_right _ _
  · intro x r hr
    by_cases hx : x ∈ gone
    · exact Or.inl (past_of_gone h hrebuild hwrap hx)
    · obtain ⟨r', hr', hSame⟩ := hleft x r hr hx
      exact Or.inr ⟨r', hr', hSame.steps⟩
  · exact (congrArg ScopeRecord.state hFresh).symm

end Rebuild

end ScopeTree

end FormulaOutline
