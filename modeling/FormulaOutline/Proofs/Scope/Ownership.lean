import FormulaOutline.Proofs.Scope.Planting
import Mathlib

/-!
# Trees of owned scopes

In a scope tree every scope but the root is owned by exactly one other scope, and all scopes are
reached from the root.

* `Rooted`: the invariant of scope trees.
* `mem_owned_iff`, `nodup_owned`: the walk over what a scope owns finds all of it, each scope once.
* `Rooted.of_shapes`: the invariant does not depend on how far evaluation has come.
-/

namespace FormulaOutline.ScopeTree

open Relation

/-- Every scope but the root is owned by its parent, every link is answered by the record that it
leads to, and all scopes are reached from the root. -/
structure Rooted (t : ScopeTree) : Prop where
  sound : t.arena.Sound
  root : ∃ r, t.record? t.root = some r ∧ r.parent = none ∧ r.transclusion = false
  linked : ∀ x r, t.record? x = some r → r.Linked t.arena x
  owner : ∀ x r, t.record? x = some r → x = t.root ∨ ∃ p, r.parent = some p ∧ t.arena.Owns p x
  reached : ∀ x r, t.record? x = some r → t.arena.Reaches t.root x

/-! ## Paths of owners -/

/-- One scope is a number of steps below another one. -/
inductive Descends (t : ScopeTree) (x : ScopeId) : Nat → ScopeId → Prop
  | here : Descends t x 0 x
  | step {n : Nat} {y z : ScopeId} : Descends t x n y → t.arena.Owns y z → Descends t x (n + 1) z

variable {t t' : ScopeTree} {x y z p q : ScopeId} {n m : Nat}

theorem reaches_iff_descends : t.arena.Reaches x y ↔ ∃ n, t.Descends x n y := by
  constructor
  · intro h
    induction h with
    | refl => exact ⟨0, .here⟩
    | tail _ hown ih =>
      obtain ⟨n, hn⟩ := ih
      exact ⟨n + 1, hn.step hown⟩
  · rintro ⟨n, h⟩
    induction h with
    | here => exact ReflTransGen.refl
    | step _ hown ih => exact ReflTransGen.tail ih hown

theorem Descends.trans (h : t.Descends x n y) (h' : t.Descends y m z) : t.Descends x (n + m) z := by
  induction h' with
  | here => exact h
  | step _ hown ih => exact ih.step hown

theorem descends_succ_iff : t.Descends x (n + 1) z ↔ ∃ y, t.arena.Owns x y ∧ t.Descends y n z := by
  constructor
  · intro h
    generalize hm : n + 1 = m at h
    induction h generalizing n with
    | here => omega
    | @step k y z hxy hyz ih =>
      obtain rfl : n = k := by omega
      cases n with
      | zero =>
        cases hxy
        exact ⟨z, hyz, .here⟩
      | succ n =>
        obtain ⟨w, hxw, hwy⟩ := ih rfl
        exact ⟨w, hxw, hwy.step hyz⟩
  · rintro ⟨y, hxy, hyz⟩
    have h := (Descends.here.step hxy).trans hyz
    rwa [Nat.add_comm] at h

namespace Rooted

variable (h : t.Rooted)
include h

theorem live_of_owns (hown : t.arena.Owns p x) : ∃ s, t.record? x = some s ∧ s.parent = some p := by
  obtain ⟨r, hr, hx⟩ := hown
  exact (h.linked p r hr).owned hx

theorem parent?_of_owns (hown : t.arena.Owns p x) : t.parent? x = some p := by
  obtain ⟨s, hs, hParent⟩ := h.live_of_owns hown
  rw [parent?, hs, Option.bind_some, hParent]

theorem owner_unique (hp : t.arena.Owns p x) (hq : t.arena.Owns q x) : p = q := by
  obtain ⟨r, hr, hrp⟩ := h.live_of_owns hp
  obtain ⟨s, hs, hsq⟩ := h.live_of_owns hq
  rw [hr] at hs
  cases hs
  exact Option.some.inj (hrp.symm.trans hsq)

theorem not_owns_root : ¬ t.arena.Owns p t.root := by
  intro hp
  obtain ⟨r, hr, hrp⟩ := h.live_of_owns hp
  obtain ⟨s, hs, hsp, -⟩ := h.root
  rw [hr] at hs
  cases hs
  rw [hrp] at hsp
  cases hsp

theorem live_of_descends (hx : ∃ r, t.record? x = some r) (hxy : t.Descends x n y) :
    ∃ r, t.record? y = some r := by
  cases hxy with
  | here => exact hx
  | step _ hown =>
    obtain ⟨s, hs, -⟩ := h.live_of_owns hown
    exact ⟨s, hs⟩

theorem owns_of_parent {r : ScopeRecord} (hx : t.record? x = some r) (hp : r.parent = some p) :
    t.arena.Owns p x := by
  rcases h.owner x r hx with rfl | ⟨q, hq, hown⟩
  · obtain ⟨s, hs, hsp, -⟩ := h.root
    rw [hx] at hs
    cases hs
    rw [hp] at hsp
    cases hsp
  · rw [hp] at hq
    cases hq
    exact hown

theorem eq_root_of_parent {r : ScopeRecord} (hx : t.record? x = some r) (hp : r.parent = none) :
    x = t.root := by
  rcases h.owner x r hx with he | ⟨p, hpp, -⟩
  · exact he
  · rw [hp] at hpp
    cases hpp

/-- What is reached from a scope through the owner is reached from the owner. -/
theorem reaches_iff_of_owns (hown : t.arena.Owns p y) :
    t.arena.Reaches x y ↔ y = x ∨ t.arena.Reaches x p := by
  constructor
  · intro hxy
    rcases ReflTransGen.cases_tail hxy with he | ⟨q, hxq, hq⟩
    · exact Or.inl he
    · exact Or.inr (h.owner_unique hq hown ▸ hxq)
  · rintro (rfl | hxp)
    · exact ReflTransGen.refl
    · exact ReflTransGen.tail hxp hown

/-- A scope is a definite number of steps below the root. -/
theorem depth_unique (hn : t.Descends t.root n x) (hm : t.Descends t.root m x) : n = m := by
  induction hn generalizing m with
  | here =>
    cases hm with
    | here => rfl
    | step _ hown => exact (h.not_owns_root hown).elim
  | step _ hown ih =>
    cases hm with
    | here => exact (h.not_owns_root hown).elim
    | step hm hown' =>
      obtain rfl := h.owner_unique hown hown'
      rw [ih hm]

theorem depth_exists (hx : ∃ r, t.record? x = some r) : ∃ n, t.Descends t.root n x := by
  obtain ⟨r, hr⟩ := hx
  exact reaches_iff_descends.mp (h.reached x r hr)

theorem acyclic (hx : ∃ r, t.record? x = some r) (hxx : t.Descends x n x) : n = 0 := by
  obtain ⟨k, hk⟩ := h.depth_exists hx
  have := h.depth_unique hk (hk.trans hxx)
  omega

theorem not_reaches_owner (hown : t.arena.Owns p x) : ¬ t.arena.Reaches x p := by
  intro hxp
  obtain ⟨n, hn⟩ := reaches_iff_descends.mp hxp
  obtain ⟨s, hs, -⟩ := h.live_of_owns hown
  have := h.acyclic ⟨s, hs⟩ (hn.step hown)
  omega

/-- No scope with an owner reaches the root. -/
theorem not_reaches_root (hown : t.arena.Owns p x) : ¬ t.arena.Reaches x t.root := by
  intro hreach
  rcases ReflTransGen.cases_tail hreach with he | ⟨q, -, hq⟩
  · exact h.not_owns_root (he ▸ hown)
  · exact h.not_owns_root hq

/-- Paths of one length to one scope start at one scope. -/
theorem start_unique (hp : t.Descends p n x) (hq : t.Descends q n x) : p = q := by
  induction hp generalizing q with
  | here =>
    cases hq
    rfl
  | step _ hown ih =>
    cases hq with
    | step hq hown' =>
      obtain rfl := h.owner_unique hown hown'
      exact ih hq

/-- No scope is more steps below the root than there are slots. -/
theorem depth_lt (hx : t.Descends t.root n x) : n < t.arena.slots.size := by
  have hlist : ∃ l : List ScopeId, l.length = n + 1 ∧ l.Nodup ∧
      ∀ y ∈ l, (∃ m ≤ n, t.Descends t.root m y) ∧ ∃ r, t.record? y = some r := by
    obtain ⟨r, hr, -⟩ := h.root
    induction hx with
    | here => exact ⟨[t.root], rfl, List.nodup_singleton _, by simpa using ⟨.here, r, hr⟩⟩
    | @step n y z hy hyz ih =>
      obtain ⟨l, hlen, hnd, hl⟩ := ih
      refine ⟨z :: l, by simp [hlen], List.nodup_cons.mpr ⟨?_, hnd⟩, ?_⟩
      · intro hz
        obtain ⟨⟨m, hm, hzm⟩, -⟩ := hl z hz
        have := h.depth_unique hzm (hy.step hyz)
        omega
      · intro w hw
        rcases List.mem_cons.mp hw with rfl | hw
        · obtain ⟨s, hs, -⟩ := h.live_of_owns hyz
          exact ⟨⟨n + 1, Nat.le_refl _, hy.step hyz⟩, s, hs⟩
        · obtain ⟨⟨m, hm, hwm⟩, hlive⟩ := hl w hw
          exact ⟨⟨m, Nat.le_succ_of_le hm, hwm⟩, hlive⟩
  obtain ⟨l, hlen, hnd, hl⟩ := hlist
  have hsub : l ⊆ t.arena.entries.map Prod.fst := by
    intro y hy
    obtain ⟨-, r, hr⟩ := hl y hy
    exact List.mem_map.mpr ⟨(y, r), Arena.mem_entries_iff.mpr hr, rfl⟩
  have hle := (List.subperm_of_subset hnd hsub).length_le
  have hsize := t.arena.size_le
  rw [List.length_map, ← Arena.size_eq_length_entries] at hle
  omega

end Rooted

/-! ## Walks -/

/-- A walk along the scopes that scopes own, in any order, finds those that are less than `fuel`
steps below its start. -/
theorem mem_walkWithin_iff {links : ScopeRecord → List ScopeId}
    (hlinks : ∀ r c, c ∈ links r ↔ c ∈ r.owned) (h : t.Rooted) {fuel : Nat} :
    y ∈ t.walkWithin links fuel x ↔
      (∃ r, t.record? x = some r) ∧ ∃ n, n < fuel ∧ t.Descends x n y := by
  induction fuel generalizing x with
  | zero => simp [walkWithin]
  | succ fuel ih =>
    rw [walkWithin]
    cases hx : t.record? x with
    | none => simp
    | some r =>
      simp only [List.mem_cons, List.mem_flatMap, ih, hlinks, Option.some.injEq, exists_eq',
        true_and]
      constructor
      · rintro (rfl | ⟨c, hc, -, n, hn, hcy⟩)
        · exact ⟨0, Nat.succ_pos _, .here⟩
        · exact ⟨n + 1, Nat.succ_lt_succ hn, descends_succ_iff.mpr ⟨c, ⟨r, hx, hc⟩, hcy⟩⟩
      · rintro ⟨n, hn, hxy⟩
        cases n with
        | zero =>
          cases hxy
          exact Or.inl rfl
        | succ n =>
          obtain ⟨c, hxc, hcy⟩ := descends_succ_iff.mp hxy
          obtain ⟨s, hs, -⟩ := h.live_of_owns hxc
          obtain ⟨r', hr', hc⟩ := hxc
          obtain rfl : r = r' := Option.some.inj (hx.symm.trans hr')
          exact Or.inr ⟨c, hc, ⟨s, hs⟩, n, Nat.lt_of_succ_lt_succ hn, hcy⟩

/-- Of two scopes that one scope owns neither owns a scope that the other one owns too. -/
theorem Rooted.disjoint_of_owns (h : t.Rooted) {c d : ScopeId} (hc : t.arena.Owns x c)
    (hd : t.arena.Owns x d) (hne : c ≠ d) : ¬ (t.arena.Reaches c y ∧ t.arena.Reaches d y) := by
  rintro ⟨hcy, hdy⟩
  obtain ⟨n, hn⟩ := reaches_iff_descends.mp hcy
  obtain ⟨m, hm⟩ := reaches_iff_descends.mp hdy
  obtain ⟨k, hk⟩ := h.depth_exists (hc.imp fun _ hr => hr.1)
  -- Both ways lead from the root through the owner, so they are equally long.
  have hDepth := h.depth_unique ((hk.step hc).trans hn) ((hk.step hd).trans hm)
  obtain rfl : n = m := by omega
  exact hne (h.start_unique hn hm)

theorem nodup_walkWithin {links : ScopeRecord → List ScopeId}
    (hlinks : ∀ r c, c ∈ links r ↔ c ∈ r.owned)
    (hnodup : ∀ x r, t.record? x = some r → (links r).Nodup) (h : t.Rooted) (fuel : Nat)
    (x : ScopeId) : (t.walkWithin links fuel x).Nodup := by
  induction fuel generalizing x with
  | zero => exact List.nodup_nil
  | succ fuel ih =>
    rw [walkWithin]
    cases hx : t.record? x with
    | none => exact List.nodup_nil
    | some r =>
      have hlive : ∃ r, t.record? x = some r := ⟨r, hx⟩
      refine List.nodup_cons.mpr ⟨?_, List.nodup_flatMap.mpr ⟨fun c _ => ih c, ?_⟩⟩
      · intro hmem
        obtain ⟨c, hc, hxc⟩ := List.mem_flatMap.mp hmem
        obtain ⟨-, n, -, hn⟩ := (mem_walkWithin_iff hlinks h).mp hxc
        have hown : t.arena.Owns x c := ⟨r, hx, (hlinks r c).mp hc⟩
        have := h.acyclic hlive (descends_succ_iff.mpr ⟨c, hown, hn⟩)
        omega
      · refine (hnodup x r hx).imp_of_mem ?_
        intro c d hc hd hne
        rw [Function.onFun, List.disjoint_left]
        intro y hyc hyd
        obtain ⟨-, n, -, hn⟩ := (mem_walkWithin_iff hlinks h).mp hyc
        obtain ⟨-, m, -, hm⟩ := (mem_walkWithin_iff hlinks h).mp hyd
        exact h.disjoint_of_owns ⟨r, hx, (hlinks r c).mp hc⟩ ⟨r, hx, (hlinks r d).mp hd⟩ hne
          ⟨reaches_iff_descends.mpr ⟨n, hn⟩, reaches_iff_descends.mpr ⟨m, hm⟩⟩

theorem mem_owned_iff (h : t.Rooted) (hx : ∃ r, t.record? x = some r) :
    y ∈ t.owned x ↔ t.arena.Reaches x y := by
  rw [owned, walk, mem_walkWithin_iff (by simp) h, reaches_iff_descends]
  constructor
  · rintro ⟨-, n, -, hn⟩
    exact ⟨n, hn⟩
  · rintro ⟨n, hn⟩
    obtain ⟨k, hk⟩ := h.depth_exists hx
    have := h.depth_lt (hk.trans hn)
    exact ⟨hx, n, by omega, hn⟩

theorem nodup_owned (h : t.Rooted) (x : ScopeId) : (t.owned x).Nodup := by
  refine nodup_walkWithin (by simp) ?_ h _ x
  intro y r hy
  exact List.nodup_reverse.mpr (h.linked y r hy).nodup

/-! ## Evaluation does not touch the tree -/

theorem owns_congr (hs : ∀ x, (t'.record? x).map ScopeRecord.shape =
      (t.record? x).map ScopeRecord.shape) : t.arena.Owns p x → t'.arena.Owns p x := by
  rintro ⟨r, hr, hx⟩
  have hp := hs p
  rw [show t.record? p = some r from hr, Option.map_some] at hp
  obtain ⟨r', hr', hshape⟩ := Option.map_eq_some_iff.mp hp
  exact ⟨r', hr', by rwa [ScopeRecord.owned_of_shape hshape]⟩

/-- The invariant depends on the shapes of the records alone. -/
theorem Rooted.of_shapes (h : t.Rooted) (hroot : t'.root = t.root) (hsound : t'.arena.Sound)
    (hs : ∀ x, (t'.record? x).map ScopeRecord.shape = (t.record? x).map ScopeRecord.shape) :
    t'.Rooted := by
  have hrecord : ∀ {x r'}, t'.record? x = some r' →
      ∃ r, t.record? x = some r ∧ r.shape = r'.shape := by
    intro x r' hr'
    have hx := hs x
    rw [hr', Option.map_some] at hx
    obtain ⟨r, hr, hshape⟩ := Option.map_eq_some_iff.mp hx.symm
    exact ⟨r, hr, hshape⟩
  have hrecord' : ∀ {x r}, t.record? x = some r →
      ∃ r', t'.record? x = some r' ∧ r.shape = r'.shape := by
    intro x r hr
    have hx := hs x
    rw [hr, Option.map_some] at hx
    obtain ⟨r', hr', hshape⟩ := Option.map_eq_some_iff.mp hx
    exact ⟨r', hr', hshape.symm⟩
  refine ⟨hsound, ?_, ?_, ?_, ?_⟩
  · obtain ⟨r, hr, hp, hf⟩ := h.root
    obtain ⟨r', hr', hshape⟩ := hrecord' hr
    have hface := ScopeRecord.face_of_shape hshape
    exact ⟨r', hroot ▸ hr', ScopeRecord.parent_of_face hface ▸ hp,
      ScopeRecord.transclusion_of_face hface ▸ hf⟩
  · intro x r' hx
    obtain ⟨r, hr, hshape⟩ := hrecord hx
    refine (h.linked x r hr).congr hshape ?_
    intro c _ rc hrc
    obtain ⟨rc', hrc', hc⟩ := hrecord' hrc
    exact ⟨rc', hrc', ScopeRecord.face_of_shape hc⟩
  · intro x r' hx
    obtain ⟨r, hr, hshape⟩ := hrecord hx
    rcases h.owner x r hr with he | ⟨p, hp, hown⟩
    · exact Or.inl (hroot ▸ he)
    · exact Or.inr ⟨p, ScopeRecord.parent_of_face (ScopeRecord.face_of_shape hshape) ▸ hp,
        owns_congr hs hown⟩
  · intro x r' hx
    obtain ⟨r, hr, -⟩ := hrecord hx
    rw [hroot]
    exact (h.reached x r hr).mono fun p c => owns_congr hs

/-- Changing what evaluation has left on a scope keeps the invariant. -/
theorem Rooted.modify (h : t.Rooted) (id : ScopeId) {f : ScopeRecord → ScopeRecord}
    (hf : ∀ r, (f r).shape = r.shape) : (t.modify id f).Rooted := by
  refine h.of_shapes rfl (h.sound.modify id f) ?_
  intro x
  show ((t.arena.modify id f).get? x).map _ = (t.arena.get? x).map _
  rw [Arena.get?_modify]
  split
  · rename_i hx
    subst hx
    rw [Option.map_map]
    congr 1
    funext r
    exact hf r
  · rfl

theorem Rooted.modifyAll (h : t.Rooted) (ids : List ScopeId) {f : ScopeRecord → ScopeRecord}
    (hf : ∀ r, (f r).shape = r.shape) : (t.modifyAll ids f).Rooted := by
  induction ids generalizing t with
  | nil => exact h
  | cons id rest ih => exact ih (h.modify id hf)

theorem Rooted.disable (h : t.Rooted) (id : ScopeId) : (t.disable id).Rooted :=
  h.modifyAll _ fun _ => rfl

end FormulaOutline.ScopeTree
