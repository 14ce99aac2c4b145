import FormulaOutline.Document.Outline
import FormulaOutline.Proofs.Scope.Aging
import FormulaOutline.Proofs.Scope.Shapes
import FormulaOutline.Proofs.Session.Operations

/-!
# What disabled scopes own

Disabling a scope disables all that it owns. Evaluation does not touch the flag, and a scope that is
made anew is enabled. So what a disabled scope owns is disabled, until one of the scopes that it owns
is rebuilt by itself.

* `ScopeTree.Sealed`: all that a disabled scope owns is disabled, `sealed_iff`: it is enough to look at
  single links.
* `Guards.disable`, `guards_rebuild_iff`: disabling keeps this, and rebuilding keeps it unless the
  parent of the rebuilt scope is disabled.
* `Session.orderly_sealed`: it holds as long as no such scope is rebuilt.
* `Session.reachable_not_sealed`: it does not hold in all sessions that can be reached.
-/

namespace FormulaOutline

open Relation

namespace ScopeTree

/-- All that a disabled scope owns is disabled. -/
def Sealed (t : ScopeTree) : Prop :=
  ∀ x, t.isLive x = true → t.isDisabled x = true → ∀ y ∈ t.owned x, t.isDisabled y = true

/-- Whatever a disabled scope owns directly is disabled. -/
def Guards (t : ScopeTree) : Prop :=
  ∀ p c, t.arena.Owns p c → t.isDisabled p = true → t.isDisabled c = true

variable {t t' : ScopeTree} {id old new x : ScopeId} {r : ScopeRecord} {gone : List ScopeId}
  {d : Document}

theorem isDisabled_of_record? (hr : t.record? x = some r) : t.isDisabled x = r.disabled := by
  rw [isDisabled, hr]
  rfl

theorem sealed_iff (h : t.Rooted) : t.Sealed ↔ t.Guards := by
  constructor
  · rintro hSealed p c ⟨r, hr, hc⟩ hp
    refine hSealed p (isLive_iff.mpr ⟨r, hr⟩) hp c ?_
    exact (mem_owned_iff h ⟨r, hr⟩).mpr (.single ⟨r, hr, hc⟩)
  · intro hGuards x hLive hx y hy
    rw [mem_owned_iff h (isLive_iff.mp hLive)] at hy
    induction hy with
    | refl => exact hx
    | tail _ hOwns ih => exact hGuards _ _ hOwns ih

/-! ## Changes in place -/

/-- Evaluation does not touch the flag. -/
theorem Guards.modify (h : t.Guards) (id : ScopeId) {f : ScopeRecord → ScopeRecord}
    (hShape : ∀ r, (f r).shape = r.shape) (hDisabled : ∀ r, (f r).disabled = r.disabled) :
    (t.modify id f).Guards := by
  have hSame : ∀ x, (t.modify id f).isDisabled x = t.isDisabled x := by
    intro x
    rw [isDisabled, isDisabled, record?_modify]
    split
    · rename_i hx
      subst hx
      rw [Option.map_map]
      exact congrArg (fun g => ((t.record? x).map g).getD true) (funext hDisabled)
    · rfl
  intro p c hOwns hp
  rw [hSame] at hp ⊢
  exact h p c (owns_congr (sameShape_modify t id hShape).shapes hOwns) hp

theorem sameShape_disable (t : ScopeTree) (id : ScopeId) : t.SameShape (t.disable id) := by
  have hAll : ∀ (ids : List ScopeId) (t : ScopeTree), t.SameShape (t.modifyAll ids .disable) := by
    intro ids
    induction ids with
    | nil => exact SameShape.refl
    | cons x ids ih =>
      exact fun t => (sameShape_modify t x (f := .disable) fun _ => rfl).trans (ih _)
  exact hAll _ t

theorem isDisabled_disable (h : t.Rooted) (id x : ScopeId) :
    (t.disable id).isDisabled x = if x ∈ t.owned id then true else t.isDisabled x := by
  split
  · rename_i hx
    obtain ⟨r, hr, hDisabled⟩ := disabled_of_mem h hx
    rw [isDisabled_of_record? hr, hDisabled]
  · rename_i hx
    rw [isDisabled, record?_disable h, if_neg hx]
    rfl

theorem Guards.disable (hGuards : t.Guards) (h : t.Rooted) (id : ScopeId) :
    (t.disable id).Guards := by
  intro p c hOwns hp
  have hOwns' := owns_congr (sameShape_disable t id).shapes hOwns
  rw [isDisabled_disable h] at hp ⊢
  by_cases hc : c ∈ t.owned id
  · exact if_pos hc
  · -- Where the scope is left out, so is its owner.
    have hNot : p ∉ t.owned id := by
      intro hMem
      obtain ⟨hLive, -⟩ := (mem_walkWithin_iff (by simp) h).mp hMem
      rw [mem_owned_iff h hLive] at hMem hc
      exact hc (hMem.tail hOwns')
    rw [if_neg hNot] at hp
    rw [if_neg hc]
    exact hGuards p c hOwns' hp

/-! ## Rebuilding -/

/-- The parent of a scope is enabled, if it has one. -/
def Spares (t : ScopeTree) (id : ScopeId) : Prop :=
  ∀ p, t.parent? id = some p → t.isDisabled p = false

section Relinked

variable {a : Arena ScopeRecord} {owner : ScopeId} {ro : ScopeRecord}
  {named : List (String × ScopeId)} (h : t.Rooted) (hr : t.record? old = some r)
  (hro : t.record? owner = some ro) (hMem : old ∈ ro.owned)
  (hg : Arena.Grown (t.freeAll (t.owned old)).arena a [new])
  (hRecord : ∀ x, t'.record? x = if x = owner then some (spliced old new named ro) else a.get? x)
include h hr hro hMem hg hRecord

omit hMem in
/-- A scope that is left keeps its flag. -/
theorem isDisabled_left {s : ScopeRecord} (hs : t.record? x = some s)
    (hReach : ¬ t.arena.Reaches old x) : t'.isDisabled x = t.isDisabled x := by
  rw [isDisabled_of_record? hs]
  by_cases hx : x = owner
  · subst hx
    obtain rfl := Option.some.inj (hro.symm.trans hs)
    exact isDisabled_of_record? (r := spliced old new named ro) ((hRecord x).trans (if_pos rfl))
  · have hKept := hg.kept x s ((get?_cleared h hr).mpr ⟨hReach, hs⟩)
    exact isDisabled_of_record? ((hRecord x).trans ((if_neg hx).trans hKept))

theorem guards_relink_iff (hGuards : t.Guards) : t'.Guards ↔ ro.disabled = false := by
  have hNew : t'.isDisabled new = false := by
    have hFresh := hg.tops_new new (List.mem_singleton_self new)
    obtain ⟨s, hs⟩ := hg.tops_live new (List.mem_singleton_self new)
    have hne : new ≠ owner := by
      rintro rfl
      rw [(get?_cleared h hr).mpr ⟨h.not_reaches_owner ⟨ro, hro, hMem⟩, hro⟩] at hFresh
      cases hFresh
    rw [isDisabled_of_record? ((hRecord new).trans ((if_neg hne).trans hs)),
      ← hg.fresh new s hFresh hs]
    rfl
  constructor
  · intro hGuards'
    by_contra hDisabled
    rw [Bool.not_eq_false] at hDisabled
    have hOwner : t'.isDisabled owner = true :=
      (isDisabled_of_record? ((hRecord owner).trans (if_pos rfl))).trans hDisabled
    have hOwns : t'.arena.Owns owner new := owner_owns_new hMem hRecord
    rw [hGuards' owner new hOwns hOwner] at hNew
    cases hNew
  · rintro hEnabled p c ⟨s, hs, hc⟩ hp
    have hFlag : s.disabled = true := (isDisabled_of_record? hs).symm.trans hp
    rcases relink_cases h hr hg hRecord hs with ⟨-, rfl⟩ | ⟨-, hs', hFresh⟩ | ⟨hpo, hs', hReach⟩
    · rw [show (spliced old new named ro).disabled = ro.disabled from rfl, hEnabled] at hFlag
      cases hFlag
    · rw [← hg.fresh p s hFresh hs'] at hFlag
      cases hFlag
    · have hOwns : t.arena.Owns p c := ⟨s, hs', hc⟩
      have hLeft : ¬ t.arena.Reaches old c := by
        rw [h.reaches_iff_of_owns hOwns]
        rintro (rfl | hOld)
        · exact hpo (h.owner_unique hOwns ⟨ro, hro, hMem⟩)
        · exact hReach hOld
      obtain ⟨sc, hsc, -⟩ := h.live_of_owns hOwns
      rw [isDisabled_left h hr hro hg hRecord hsc hLeft]
      exact hGuards p c hOwns ((isDisabled_of_record? hs').trans hFlag)

end Relinked

/-- Rebuilding keeps what disabled scopes own disabled, unless a disabled scope gets the new one. -/
theorem guards_rebuild_iff (hGuards : t.Guards) (h : t.Rooted)
    (hRebuild : t.rebuild old d = .ok (new, gone, t')) : t'.Guards ↔ t.Spares old := by
  obtain ⟨r, arena, hr, rfl, hPlant, hCase⟩ := rebuild_cases hRebuild
  obtain ⟨hg, -⟩ := Blueprint.plant_grown (sound_freeAll h.sound (t.owned old)) r.parent
    r.transclusion _ (d.keyed_unfold ((t.ancestors old).map (·.2.node)) r.node)
  rw [hPlant] at hg
  have hParent : t.parent? old = r.parent := by rw [parent?, hr, Option.bind_some]
  rcases hCase with ⟨hp, rfl⟩ | ⟨owner, hp, rfl⟩
  · -- All scopes of the new tree are new.
    obtain rfl := h.eq_root_of_parent hr hp
    refine iff_of_true ?_ fun p hpp => ?_
    · rintro p c ⟨s, hs, -⟩ hDisabled
      have hFlag : s.disabled = true := (isDisabled_of_record? hs).symm.trans hDisabled
      rw [← hg.fresh p s (cleared_root h hr p) hs] at hFlag
      cases hFlag
    · rw [hParent, hp] at hpp
      cases hpp
  · obtain ⟨ro, hro, hMem⟩ := h.owns_of_parent hr hp
    have hOwner := owner_kept h hr hro hMem hg
    obtain ⟨named, hRecord, -⟩ :=
      get?_relink ⟨arena, t.root⟩ new (h.linked owner ro hro) hr hMem hOwner
    refine (guards_relink_iff h hr hro hMem hg hRecord hGuards).trans ?_
    simp [Spares, hParent, hp, isDisabled_of_record? hro]

end ScopeTree

namespace Session

variable {s s' : Session}

/-- All events but the rebuilding of a scope whose parent is disabled. -/
def Event.Spares (t : ScopeTree) : Event → Prop
  | .rebuild id _ => t.Spares id
  | _ => True

/-- The sessions that a session comes to without rebuilding a scope whose parent is disabled. -/
inductive Orderly (first : Session) : Session → Prop
  | refl : Orderly first first
  | apply {s : Session} (e : Event) : Orderly first s → e.Spares s.tree → Orderly first (s.apply e)
  | evaluate {s : Session} (id : ScopeId) : Orderly first s → Orderly first (s.startAll id)
  | reevaluate {s : Session} (id : ScopeId) : Orderly first s → Orderly first (s.restart id).2
  | turn {s : Session} (t : Task) : Orderly first s → Orderly first (s.turn t)
  | dispatch {s : Session} : Orderly first s → Orderly first s.dispatch
  | finish {s : Session} (p : Process) : Orderly first s → Orderly first (s.finish p).2
  | pass {s : Session} (ms : Nat) : Orderly first s → Orderly first (s.pass ms)
  | settle {s : Session} : Orderly first s → Orderly first s.settle

theorem kept_guards : Kept ScopeTree.Guards where
  start := by
    intro s id force h
    rcases start_cases s id force with he | ⟨r, -, -, -, he⟩ <;> rw [he]
    · exact h
    · exact h.modify id (fun _ => rfl) fun _ => rfl
  complete := by
    intro s run values h
    rcases complete_cases s run values with ⟨-, he⟩ | ⟨-, he, -⟩ <;> rw [he]
    · exact h
    · exact h.modify run.scope (fun _ => rfl) fun _ => rfl
  publish := by
    intro s run target name data h
    rcases publish_cases s run target name data with ⟨-, he⟩ | ⟨result, -, he, -⟩ <;> rw [he]
    · exact h
    · exact h.modify target (fun _ => rfl) fun _ => rfl

/-- Every event but such a rebuilding keeps what disabled scopes own disabled. -/
theorem guards_apply (hRooted : s.tree.Rooted) (h : s.tree.Guards) {e : Event}
    (hSpares : e.Spares s.tree) : (s.apply e).tree.Guards := by
  cases e with
  | start id force => exact kept_guards.start s id force h
  | complete place values =>
    change (s.completeAt place values).tree.Guards
    rcases completeAt_cases s place values with he | ⟨t, -, -, he⟩ <;> rw [he]
    · exact h
    · exact kept_guards.complete _ t.run values h
  | publish run target name data => exact kept_guards.publish s run target name data h
  | disable id => exact h.disable hRooted id
  | rebuild id d =>
    rw [apply]
    split
    · rename_i hs
      obtain ⟨gone, hRebuild, -⟩ := rebuild_cases hs
      exact (ScopeTree.guards_rebuild_iff h hRooted hRebuild).mpr hSpares
    · exact h

theorem Orderly.reachable {first : Session} (h : Orderly first s) : Reachable first s := by
  induction h with
  | refl => exact .refl
  | apply e _ _ ih => exact ih.apply e
  | evaluate id _ ih => exact ih.evaluate id
  | reevaluate id _ ih => exact ih.reevaluate id
  | turn t _ ih => exact ih.turn t
  | dispatch _ ih => exact ih.dispatch
  | finish p _ ih => exact ih.finish p
  | pass ms _ ih => exact ih.pass ms
  | settle _ ih => exact ih.settle

theorem Orderly.guards {first : Session} (h : Orderly first s) (hRooted : first.tree.Rooted)
    (hFirst : first.tree.Guards) : s.tree.Guards := by
  induction h with
  | refl => exact hFirst
  | apply e h hSpares ih => exact guards_apply (h.reachable.rooted hRooted) ih hSpares
  | evaluate id _ ih => exact kept_guards.startAll ih id
  | reevaluate id _ ih => exact kept_guards.restart ih id
  | turn t _ ih => exact kept_guards.turn ih t
  | dispatch _ ih => exact Kept.dispatch ih
  | finish p _ ih => exact kept_guards.finish p ih
  | pass ms _ ih => exact kept_guards.pass ms ih
  | settle _ ih => exact kept_guards.settle ih

/-- What a disabled scope owns is disabled as long as no scope with a disabled parent is rebuilt by
itself, and each such rebuilding ends that. -/
theorem orderly_sealed (d : Document) (functions : Registry) (config : EngineConfig)
    (providers : Directory) (h : Orderly (ofTree (.build d) functions config providers) s) :
    s.tree.Sealed ∧ ∀ id d' new s', s.rebuild id d' = .ok (new, s') →
      (s'.tree.Sealed ↔ s.tree.Spares id) := by
  have hBuild := ScopeTree.rooted_build d
  have hRooted := h.reachable.rooted hBuild
  have hGuards : s.tree.Guards := by
    refine h.guards hBuild fun p c hOwns hp => ?_
    obtain ⟨r, hr, -⟩ := hOwns
    have hFlag : r.disabled = true := (ScopeTree.isDisabled_of_record? hr).symm.trans hp
    rw [← ScopeTree.shape_build d hr] at hFlag
    cases hFlag
  refine ⟨(ScopeTree.sealed_iff hRooted).mpr hGuards, fun id d' new s' hs => ?_⟩
  obtain ⟨gone, hRebuild, -⟩ := rebuild_cases hs
  rw [ScopeTree.sealed_iff (hRooted.rebuild hRebuild)]
  exact ScopeTree.guards_rebuild_iff hGuards hRooted hRebuild

/-- A scope in a scope. -/
def nestedOutline : String := "- [a] x\n  - [b] y\n"

def nested : Document :=
  ⟨"root", [⟨"root", "", ["a"]⟩, ⟨"a", "x", ["b"]⟩, ⟨"b", "y", []⟩], 0⟩

/-- The inner scope is rebuilt, the outer one is disabled, rebuilt, evaluated and disabled again. -/
theorem orderly_sealed_nested :
    ((((ofTree (.build nested) [] .default .empty).run [.rebuild ⟨2, 0⟩ nested, .disable ⟨1, 0⟩,
      .rebuild ⟨1, 0⟩ nested]).startAll ⟨2, 2⟩).apply (.disable ⟨2, 2⟩)).tree.Sealed := by
  have hSpares : ∀ {t : ScopeTree} {id p : ScopeId}, t.parent? id = some p →
      t.isDisabled p = false → t.Spares id := by
    intro t id p hp hEnabled q hq
    obtain rfl := Option.some.inj (hp.symm.trans hq)
    exact hEnabled
  have hInner := (Orderly.refl : Orderly (ofTree (.build nested) [] .default .empty) _).apply
    (.rebuild ⟨2, 0⟩ nested) (hSpares (p := ⟨1, 0⟩) (by cbv) (by cbv))
  have hOuter := (hInner.apply (.disable ⟨1, 0⟩) trivial).apply (.rebuild ⟨1, 0⟩ nested)
    (hSpares (p := ⟨0, 0⟩) (by cbv) (by cbv))
  exact (orderly_sealed nested [] .default .empty
    ((hOuter.evaluate ⟨2, 2⟩).apply (.disable ⟨2, 2⟩) trivial)).1

/-- The inner scope is enabled again when it is rebuilt, the outer one stays disabled. -/
theorem reachable_not_sealed :
    Document.ofOutline .start nestedOutline.toList = .ok (nested, .start) ∧
      ∃ s, s = (ofTree (.build nested) [] .default .empty).run
          [.disable ⟨1, 0⟩, .rebuild ⟨2, 0⟩ nested] ∧
        Reachable (ofTree (.build nested) [] .default .empty) s ∧
        s.tree.isLive ⟨1, 0⟩ = true ∧ s.tree.isDisabled ⟨1, 0⟩ = true ∧
        s.tree.owned ⟨1, 0⟩ = [⟨1, 0⟩, ⟨2, 1⟩] ∧ s.tree.isDisabled ⟨2, 1⟩ = false ∧
        ¬ s.tree.Sealed := by
  refine ⟨by cbv, _, rfl, .run .refl _, ?_⟩
  generalize hs : (ofTree (.build nested) [] .default .empty).run
    [.disable ⟨1, 0⟩, .rebuild ⟨2, 0⟩ nested] = s
  have hLive : s.tree.isLive ⟨1, 0⟩ = true := by rw [← hs]; cbv
  have hDisabled : s.tree.isDisabled ⟨1, 0⟩ = true := by rw [← hs]; cbv
  have hOwned : s.tree.owned ⟨1, 0⟩ = [⟨1, 0⟩, ⟨2, 1⟩] := by rw [← hs]; cbv
  have hEnabled : s.tree.isDisabled ⟨2, 1⟩ = false := by rw [← hs]; cbv
  refine ⟨hLive, hDisabled, hOwned, hEnabled, fun hSealed => ?_⟩
  have hInner := hSealed ⟨1, 0⟩ hLive hDisabled ⟨2, 1⟩ (by rw [hOwned]; decide)
  rw [hEnabled] at hInner
  cases hInner

end Session

end FormulaOutline
