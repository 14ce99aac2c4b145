import FormulaOutline.Proofs.Scope.Ownership

/-!
# Building and rebuilding keep ownership

* `rooted_build`: the tree of a document is rooted.
* `splice_eq`: a splice swaps the old scope for the new one wherever the owner has it.
* `Rooted.rebuild`: rebuilding any scope from any document keeps a tree rooted.
-/

namespace FormulaOutline

open Relation

/-! ## Swapping a scope -/

namespace ScopeRecord

/-- The new scope in the place of the old one, every other scope in its own. -/
def swap (old new id : ScopeId) : ScopeId := if id = old then new else id

theorem swap_self (old new : ScopeId) : swap old new old = new := if_pos rfl

theorem swap_of_ne {old id : ScopeId} (new : ScopeId) (h : id ≠ old) : swap old new id = id :=
  if_neg h

theorem map_swap_of_not_mem {old : ScopeId} (new : ScopeId) {l : List ScopeId} (h : old ∉ l) :
    l.map (swap old new) = l := by
  have hid : ∀ id ∈ l, swap old new id = id := by
    rintro id hid
    exact swap_of_ne new (by rintro rfl; exact h hid)
  rw [List.map_congr_left hid, List.map_id']

theorem replaceFirst_eq_map {old new : ScopeId} {l : List ScopeId} (hl : l.Nodup) :
    replaceFirst old new l = l.map (swap old new) := by
  induction l with
  | nil => rfl
  | cons id rest ih =>
    rw [List.nodup_cons] at hl
    rw [replaceFirst, List.map_cons]
    split
    · rename_i h
      subst h
      rw [swap_self, map_swap_of_not_mem new hl.1]
    · rename_i h
      rw [swap_of_ne new h, ih hl.2]

theorem replaceReference_eq_map {node : NodeId} {old new : ScopeId} {l : List (NodeId × ScopeId)}
    (hk : (l.map Prod.fst).Nodup) (hv : (l.map Prod.snd).Nodup)
    (hnode : ∀ e ∈ l, e.2 = old → e.1 = node) (hmem : old ∈ l.map Prod.snd) :
    replaceReference node new l = l.map fun e => (e.1, swap old new e.2) := by
  induction l with
  | nil => simp at hmem
  | cons e rest ih =>
    obtain ⟨n, id⟩ := e
    rw [List.map_cons, List.nodup_cons] at hk hv
    have hnode' : ∀ e ∈ rest, e.2 = old → e.1 = node := fun e he =>
      hnode e (List.mem_cons_of_mem _ he)
    rw [replaceReference, List.map_cons]
    by_cases hid : id = old
    · subst hid
      have hn : n = node := hnode (n, id) List.mem_cons_self rfl
      have hrest : rest.map (fun e => (e.1, swap id new e.2)) = rest := by
        have hsame : ∀ e ∈ rest, (e.1, swap id new e.2) = e := by
          intro e he
          rw [swap_of_ne new]
          intro h
          exact hv.1 (List.mem_map.mpr ⟨e, he, h⟩)
        rw [List.map_congr_left hsame, List.map_id']
      rw [if_pos hn, swap_self, hrest]
    · have hmem' : old ∈ rest.map Prod.snd := by
        rcases List.mem_cons.mp hmem with h | h
        · exact (hid h.symm).elim
        · exact h
      have hn : n ≠ node := by
        obtain ⟨e, he, heo⟩ := List.mem_map.mp hmem'
        rintro rfl
        exact hk.1 (List.mem_map.mpr ⟨e, he, hnode' e he heo⟩)
      rw [if_neg hn, swap_of_ne new hid, ih hk.2 hv.2 hnode' hmem']

/-- A splice swaps the old scope for the new one wherever the owner has it. -/
theorem splice_eq {a : Arena ScopeRecord} {owner old : ScopeId} {r s : ScopeRecord}
    (new : ScopeId) (hr : r.Linked a owner) (hs : a.get? old = some s) (hold : old ∈ r.owned) :
    r.splice old new s.node =
      { r with
        children := r.children.map (swap old new)
        transcluded := r.transcluded.map fun e => (e.1, swap old new e.2) } := by
  have hnd := hr.nodup
  rw [owned, List.nodup_append] at hnd
  obtain ⟨hc, ht, hdisj⟩ := hnd
  rw [splice]
  by_cases hmem : old ∈ r.children
  · have hnot : old ∉ r.transcluded.map Prod.snd := fun h => hdisj old hmem old h rfl
    have hsame : ∀ e ∈ r.transcluded, (e.1, swap old new e.2) = e := by
      intro e he
      rw [swap_of_ne new]
      rintro rfl
      exact hnot (List.mem_map_of_mem he)
    rw [if_pos (List.contains_iff_mem.mpr hmem), replaceFirst_eq_map hc,
      List.map_congr_left hsame, List.map_id']
  · have hmem' : old ∈ r.transcluded.map Prod.snd := by
      rcases List.mem_append.mp hold with h | h
      · exact (hmem h).elim
      · exact h
    have hnode : ∀ e ∈ r.transcluded, e.2 = old → e.1 = s.node := by
      rintro e he rfl
      obtain ⟨s', hs', -, -, hn⟩ := hr.reference e he
      rw [hs] at hs'
      cases hs'
      exact hn.symm
    have hkeys : (r.transcluded.map Prod.fst).Nodup := hr.keys ▸ nodup_referencedIds r.bullet
    rw [if_neg (by rwa [List.contains_iff_mem]), replaceReference_eq_map hkeys ht hnode hmem',
      map_swap_of_not_mem new hmem]

end ScopeRecord

namespace ScopeTree

/-! ## Building -/

/-- What has grown in an arena without scopes is a tree. -/
theorem rooted_of_grown {a a' : Arena ScopeRecord} {root : ScopeId} {node : NodeId}
    (hg : Arena.Grown a a' [root]) (hnone : ∀ x, a.get? x = none)
    (hs : Arena.Stands a' root none false node) : Rooted ⟨a', root⟩ where
  sound := hg.sound
  root := by
    obtain ⟨r, hr, hp, ht, -⟩ := hs
    exact ⟨r, hr, hp, ht⟩
  linked := fun x r hx => hg.linked x r (hnone x) hx
  owner := by
    intro x r hx
    rcases hg.owner x r (hnone x) hx with ht | ⟨p, -, hp, hown⟩
    · exact Or.inl (List.mem_singleton.mp ht)
    · exact Or.inr ⟨p, hp, hown⟩
  reached := by
    intro x r hx
    obtain ⟨i, hi, hr⟩ := hg.reached x r (hnone x) hx
    rw [List.mem_singleton] at hi
    subst hi
    exact ReflTransGen.mono (fun p c hpc => hpc.2) _ _ hr

theorem rooted_build (d : Document) : (build d).Rooted := by
  obtain ⟨hg, hs⟩ := Blueprint.plant_grown Arena.sound_empty none false (d.unfold [] d.root)
    (d.keyed_unfold [] d.root)
  exact rooted_of_grown hg Arena.get?_empty hs

/-! ## Dropping scopes -/

variable {t : ScopeTree} {x : ScopeId}

theorem freeAll_cons (t : ScopeTree) (id : ScopeId) (ids : List ScopeId) :
    t.freeAll (id :: ids) = ({ t with arena := (t.arena.free id).2 } : ScopeTree).freeAll ids := rfl

theorem sound_freeAll (ht : t.arena.Sound) (ids : List ScopeId) :
    (t.freeAll ids).arena.Sound := by
  induction ids generalizing t with
  | nil => exact ht
  | cons id rest ih =>
    rw [freeAll_cons]
    exact ih (ht.free id)

theorem get?_freeAll (ids : List ScopeId) (x : ScopeId) :
    (t.freeAll ids).arena.get? x = if x ∈ ids then none else t.arena.get? x := by
  induction ids generalizing t with
  | nil => simp [freeAll]
  | cons id rest ih =>
    rw [freeAll_cons, ih, Arena.get?_free]
    by_cases hx : x = id
    · simp [hx]
    · simp [hx]

theorem vacated_freeAll (ht : t.arena.Sound) {ids : List ScopeId} (hx : x ∈ ids) {r : ScopeRecord}
    (hr : t.arena.get? x = some r) : (t.freeAll ids).arena.Vacated x := by
  have hkeep : ∀ (ids : List ScopeId) (t : ScopeTree), t.arena.Sound → t.arena.Vacated x →
      (t.freeAll ids).arena.Vacated x := by
    intro ids
    induction ids with
    | nil => exact fun _ _ h => h
    | cons id rest ih =>
      intro t ht h
      rw [freeAll_cons]
      exact ih _ (ht.free id) (h.free ht id)
  induction ids generalizing t with
  | nil => cases hx
  | cons id rest ih =>
    rw [freeAll_cons]
    by_cases he : x = id
    · subst he
      exact hkeep rest _ (ht.free x) (Arena.vacated_free hr)
    · refine ih (ht.free id) ((List.mem_cons.mp hx).resolve_left he) ?_
      rw [Arena.get?_free, if_neg he]
      exact hr

/-! ## Rebuilding -/

/-- A live scope can be rebuilt from any document. -/
theorem exists_rebuild {r : ScopeRecord} (hr : t.record? x = some r) (d : Document) :
    ∃ top gone fresh, t.rebuild x d = .ok (top, gone, fresh) := by
  rw [rebuild, hr]
  cases hParent : r.parent with
  | none => simp [hParent]
  | some owner => simp [hParent]

/-- The parts of a rebuilding: what goes, what is left, and what grows in its place. -/
theorem rebuild_cases {old new : ScopeId} {gone : List ScopeId} {t' : ScopeTree} {d : Document}
    (h : t.rebuild old d = .ok (new, gone, t')) :
    ∃ r arena, t.record? old = some r ∧ gone = t.owned old ∧
      (d.unfold ((t.ancestors old).map (·.2.node)) r.node).plant (t.freeAll gone).arena r.parent
        r.transclusion = (new, arena) ∧
      ((r.parent = none ∧ t' = ⟨arena, new⟩) ∨
        ∃ owner, r.parent = some owner ∧
          t' = ((⟨arena, t.root⟩ : ScopeTree).modify owner (.splice old new r.node)).reindex
            owner) := by
  unfold rebuild at h
  cases hr : t.record? old with
  | none =>
    rw [hr] at h
    cases h
  | some r =>
    simp only [hr] at h
    rcases hplant : (d.unfold ((t.ancestors old).map (·.2.node)) r.node).plant
      (t.freeAll (t.owned old)).arena r.parent r.transclusion with ⟨id, arena⟩
    simp only [hplant] at h
    cases hp : r.parent with
    | none =>
      simp only [hp] at h
      cases h
      exact ⟨r, arena, rfl, rfl, hplant, Or.inl ⟨hp, rfl⟩⟩
    | some owner =>
      simp only [hp] at h
      cases h
      exact ⟨r, arena, rfl, rfl, hplant, Or.inr ⟨owner, hp, rfl⟩⟩

variable {old new owner : ScopeId} {a : Arena ScopeRecord} {r s ro : ScopeRecord}

/-- What is left when a scope and all that it owns are dropped. -/
theorem get?_cleared (h : t.Rooted) (hr : t.record? old = some r) :
    (t.freeAll (t.owned old)).arena.get? x = some s ↔
      ¬ t.arena.Reaches old x ∧ t.record? x = some s := by
  have hmem := mem_owned_iff (y := x) h ⟨r, hr⟩
  rw [get?_freeAll]
  split
  · rename_i hx
    simp [hmem.mp hx]
  · rename_i hx
    rw [hmem] at hx
    exact ⟨fun hs => ⟨hx, hs⟩, And.right⟩

/-- Nothing is left when the root is dropped with all that it owns. -/
theorem cleared_root (h : t.Rooted) (hr : t.record? t.root = some r) (x : ScopeId) :
    (t.freeAll (t.owned t.root)).arena.get? x = none := by
  cases hx : (t.freeAll (t.owned t.root)).arena.get? x with
  | none => rfl
  | some s =>
    obtain ⟨hreach, hxt⟩ := (get?_cleared h hr).mp hx
    exact (hreach (h.reached x s hxt)).elim

/-- The record of an owner with a new scope in the place of an old one. -/
def spliced (old new : ScopeId) (named : List (String × ScopeId)) (r : ScopeRecord) : ScopeRecord :=
  { r with
    children := r.children.map (ScopeRecord.swap old new)
    transcluded := r.transcluded.map fun e => (e.1, ScopeRecord.swap old new e.2)
    named }

theorem owned_spliced (named : List (String × ScopeId)) (r : ScopeRecord) :
    (spliced old new named r).owned = r.owned.map (ScopeRecord.swap old new) := by
  simp [spliced, ScopeRecord.owned]

/-- A tree in which an owner has a new scope in the place of an old one. -/
def relink (t : ScopeTree) (owner old new : ScopeId) (node : NodeId) : ScopeTree :=
  (t.modify owner (.splice old new node)).reindex owner

/-- Relinking changes the record of the owner and no other one. -/
theorem get?_relink {b : Arena ScopeRecord} (t : ScopeTree) (new : ScopeId)
    (hlinked : ro.Linked b owner) (hold : b.get? old = some r) (hmem : old ∈ ro.owned)
    (ho : t.record? owner = some ro) :
    ∃ named, (∀ x, (t.relink owner old new r.node).record? x =
        if x = owner then some (spliced old new named ro) else t.record? x) ∧
      named = (t.relink owner old new r.node).arena.firstByKey
        (ro.children.map (ScopeRecord.swap old new)) [] := by
  have hsplice := ScopeRecord.splice_eq new hlinked hold hmem
  let named := (t.modify owner (.splice old new r.node)).arena.firstByKey
    (ro.children.map (ScopeRecord.swap old new)) []
  have hrecord : ∀ x, (t.relink owner old new r.node).record? x =
      if x = owner then some (spliced old new named ro) else t.record? x := by
    intro x
    show ((t.arena.modify owner (.splice old new r.node)).modify owner _).get? x = _
    rw [Arena.get?_modify, Arena.get?_modify, Arena.get?_modify, if_pos rfl,
      show t.arena.get? owner = some ro from ho, Option.map_some, Option.map_some, hsplice]
    split <;> rfl
  refine ⟨named, hrecord, Arena.firstByKey_congr ?_ []⟩
  intro c _
  have hc : (t.relink owner old new r.node).arena.get? c = _ := hrecord c
  have hc' : (t.modify owner (.splice old new r.node)).arena.get? c = _ :=
    Arena.get?_modify _ c
  rw [Arena.key?, Arena.key?, hc, hc', show t.arena.get? owner = some ro from ho,
    Option.map_some, hsplice]
  split <;> rfl

/-- Putting another scope in the place of one makes no repetition. -/
theorem nodup_map_swap {ids : List ScopeId} (hids : ids.Nodup) (hfresh : new ∉ ids) :
    (ids.map (ScopeRecord.swap old new)).Nodup := by
  refine hids.map_on ?_
  intro x hx y hy hxy
  by_cases hxo : x = old
  · by_cases hyo : y = old
    · rw [hxo, hyo]
    · rw [hxo, ScopeRecord.swap_self, ScopeRecord.swap_of_ne new hyo] at hxy
      exact (hfresh (hxy ▸ hy)).elim
  · by_cases hyo : y = old
    · rw [hyo, ScopeRecord.swap_self, ScopeRecord.swap_of_ne new hxo] at hxy
      exact (hfresh (hxy ▸ hx)).elim
    · rwa [ScopeRecord.swap_of_ne new hxo, ScopeRecord.swap_of_ne new hyo] at hxy

/-- The record of the owner agrees with the scopes that it owns after relinking. -/
theorem linked_spliced {b c : Arena ScopeRecord} {named : List (String × ScopeId)}
    (hlinked : ro.Linked b owner) (hold : b.get? old = some r)
    (hnew : Arena.Stands c new (some owner) r.transclusion r.node)
    (hface : ∀ x ∈ ro.owned, x ≠ old → ∀ s, b.get? x = some s →
      ∃ s', c.get? x = some s' ∧ s.face = s'.face)
    (hfresh : new ∉ ro.owned)
    (hnamed : named = c.firstByKey (ro.children.map (ScopeRecord.swap old new)) []) :
    (spliced old new named ro).Linked c owner := by
  have hother : ∀ x ∈ ro.owned, x ≠ old → ∀ s, b.get? x = some s →
      ∃ s', c.get? (ScopeRecord.swap old new x) = some s' ∧ s.face = s'.face := by
    intro x hx hxo s hs
    rw [ScopeRecord.swap_of_ne new hxo]
    exact hface x hx hxo s hs
  obtain ⟨rn, hrn, hpn, htn, hnn⟩ := hnew
  have hblank : (spliced old new named ro).placeholder = true →
      (spliced old new named ro).bullet = .literal [] ∧
        (spliced old new named ro).children = [] := by
    intro hp
    obtain ⟨hb, hc⟩ := hlinked.blank hp
    exact ⟨hb, by simp [spliced, hc]⟩
  refine ⟨?_, ?_, ?_, ?_, hnamed, hblank⟩
  · rw [owned_spliced]
    exact nodup_map_swap hlinked.nodup hfresh
  · intro x' hx'
    obtain ⟨x, hx, rfl⟩ := List.mem_map.mp hx'
    obtain ⟨s, hs, hp, ht⟩ := hlinked.child x hx
    by_cases hxo : x = old
    · subst hxo
      rw [hold] at hs
      cases hs
      exact ⟨rn, by rwa [ScopeRecord.swap_self], hpn, htn.trans ht⟩
    · obtain ⟨s', hs', hf⟩ := hother x (List.mem_append_left _ hx) hxo s hs
      exact ⟨s', hs', ScopeRecord.parent_of_face hf ▸ hp,
        ScopeRecord.transclusion_of_face hf ▸ ht⟩
  · intro e' he'
    obtain ⟨e, he, rfl⟩ := List.mem_map.mp he'
    obtain ⟨s, hs, hp, ht, hn⟩ := hlinked.reference e he
    by_cases hxo : e.2 = old
    · rw [hxo, hold] at hs
      cases hs
      exact ⟨rn, by rwa [hxo, ScopeRecord.swap_self], hpn, htn.trans ht, hnn.trans hn⟩
    · obtain ⟨s', hs', hf⟩ :=
        hother e.2 (List.mem_append_right _ (List.mem_map_of_mem he)) hxo s hs
      exact ⟨s', hs', ScopeRecord.parent_of_face hf ▸ hp,
        ScopeRecord.transclusion_of_face hf ▸ ht, ScopeRecord.node_of_face hf ▸ hn⟩
  · have hfst : (spliced old new named ro).transcluded.map Prod.fst =
        ro.transcluded.map Prod.fst := by
      simp [spliced, Function.comp_def]
    rw [hfst]
    exact hlinked.keys

section Relink

variable {t' : ScopeTree} {named : List (String × ScopeId)} {y : ScopeId}
  (h : t.Rooted) (hr : t.record? old = some r) (hro : t.record? owner = some ro)
  (hmem : old ∈ ro.owned)
  (hg : Arena.Grown (t.freeAll (t.owned old)).arena a [new])
  (hrecord : ∀ x, t'.record? x = if x = owner then some (spliced old new named ro) else a.get? x)
include h hr hro hmem hg

/-- The owner keeps its record until it is relinked. -/
theorem owner_kept : a.get? owner = some ro :=
  hg.kept _ _ ((get?_cleared h hr).mpr ⟨h.not_reaches_owner ⟨ro, hro, hmem⟩, hro⟩)

/-- The new scope is none of those that the owner had. -/
theorem new_not_owned : new ∉ ro.owned := by
  intro hn
  obtain ⟨s, hs, -⟩ := (h.linked owner ro hro).owned hn
  have hnone := hg.tops_new new (List.mem_singleton_self new)
  have hreach : t.arena.Reaches old new := by
    by_contra hnot
    rw [(get?_cleared h hr).mpr ⟨hnot, hs⟩] at hnone
    cases hnone
  rcases (h.reaches_iff_of_owns ⟨ro, hro, hn⟩).mp hreach with he | he
  · obtain ⟨s', hs'⟩ := hg.tops_live new (List.mem_singleton_self new)
    have hv := vacated_freeAll h.sound ((mem_owned_iff h ⟨r, hr⟩).mpr ReflTransGen.refl) hr
    rw [he, hv.get?_eq_none hg.generation] at hs'
    cases hs'
  · exact h.not_reaches_owner ⟨ro, hro, hmem⟩ he

include hrecord

omit hro hmem in
/-- A scope of the relinked tree is the owner, has grown, or is left from the old tree. -/
theorem relink_cases (hx : t'.record? x = some s) :
    (x = owner ∧ s = spliced old new named ro) ∨
      (x ≠ owner ∧ a.get? x = some s ∧ (t.freeAll (t.owned old)).arena.get? x = none) ∨
      (x ≠ owner ∧ t.record? x = some s ∧ ¬ t.arena.Reaches old x) := by
  rw [hrecord] at hx
  by_cases hxo : x = owner
  · rw [if_pos hxo] at hx
    exact Or.inl ⟨hxo, (Option.some.inj hx).symm⟩
  · rw [if_neg hxo] at hx
    rcases hg.new_or_kept hx with hnew | hkept
    · exact Or.inr (Or.inl ⟨hxo, hx, hnew⟩)
    · obtain ⟨hreach, hxt⟩ := (get?_cleared h hr).mp hkept
      exact Or.inr (Or.inr ⟨hxo, hxt, hreach⟩)

theorem face_relink (hx : a.get? x = some s) : ∃ s', t'.record? x = some s' ∧ s.face = s'.face := by
  by_cases hxo : x = owner
  · rw [hxo, owner_kept h hr hro hmem hg] at hx
    cases hx
    exact ⟨_, (hrecord x).trans (if_pos hxo), rfl⟩
  · exact ⟨s, (hrecord x).trans ((if_neg hxo).trans hx), rfl⟩

theorem face_left (hx : t.record? x = some s) (hreach : ¬ t.arena.Reaches old x) :
    ∃ s', t'.record? x = some s' ∧ s.face = s'.face :=
  face_relink h hr hro hmem hg hrecord (hg.kept x s ((get?_cleared h hr).mpr ⟨hreach, hx⟩))

omit h hr hro hg in
theorem owner_owns_new : t'.arena.Owns owner new := by
  refine ⟨_, (hrecord owner).trans (if_pos rfl), ?_⟩
  rw [owned_spliced]
  exact List.mem_map.mpr ⟨old, hmem, ScopeRecord.swap_self old new⟩

/-- What is left is owned as before. -/
theorem owns_left (hxy : t.arena.Owns x y) (hreach : ¬ t.arena.Reaches old y) :
    t'.arena.Owns x y := by
  have hreach' : ¬ t.arena.Reaches old x := fun hx => hreach (hx.tail hxy)
  obtain ⟨s, hs, hy⟩ := hxy
  have hyo : y ≠ old := by
    rintro rfl
    exact hreach ReflTransGen.refl
  by_cases hxo : x = owner
  · subst hxo
    obtain rfl : ro = s := Option.some.inj (hro.symm.trans hs)
    refine ⟨_, (hrecord x).trans (if_pos rfl), ?_⟩
    rw [owned_spliced]
    exact List.mem_map.mpr ⟨y, hy, ScopeRecord.swap_of_ne new hyo⟩
  · refine ⟨s, (hrecord x).trans ((if_neg hxo).trans ?_), hy⟩
    exact hg.kept x s ((get?_cleared h hr).mpr ⟨hreach', hs⟩)

omit hg in
theorem owns_grown (hxy : Arena.NewlyOwns (t.freeAll (t.owned old)).arena a x y) :
    t'.arena.Owns x y := by
  obtain ⟨hnew, s, hs, hy⟩ := hxy
  refine ⟨s, (hrecord x).trans ((if_neg ?_).trans hs), hy⟩
  rintro rfl
  rw [(get?_cleared h hr).mpr ⟨h.not_reaches_owner ⟨ro, hro, hmem⟩, hro⟩] at hnew
  cases hnew

theorem reached_left (hx : t.record? x = some s) (hreach : ¬ t.arena.Reaches old x) :
    t'.arena.Reaches t.root x := by
  have hpath := h.reached x s hx
  clear hx
  induction hpath with
  | refl => exact ReflTransGen.refl
  | tail _ hxy ih =>
    exact (ih fun hold => hreach (hold.tail hxy)).tail
      (owns_left h hr hro hmem hg hrecord hxy hreach)

/-- The links of the scopes that are left agree with the records, also after relinking. -/
theorem linked_left (hx : t.record? x = some s) (hreach : ¬ t.arena.Reaches old x)
    (hxo : x ≠ owner) : s.Linked t'.arena x := by
  refine (h.linked x s hx).congr rfl ?_
  intro c hc rc hrc
  refine face_left h hr hro hmem hg hrecord hrc ?_
  intro hold
  rcases (h.reaches_iff_of_owns ⟨s, hx, hc⟩).mp hold with rfl | hxr
  · exact hxo (h.owner_unique ⟨s, hx, hc⟩ ⟨ro, hro, hmem⟩)
  · exact hreach hxr

end Relink

/-- A rooted tree stays rooted when what has grown for a scope takes its place. -/
theorem Rooted.relink (h : t.Rooted) (hr : t.record? old = some r) (hp : r.parent = some owner)
    (hg : Arena.Grown (t.freeAll (t.owned old)).arena a [new])
    (hs : Arena.Stands a new (some owner) r.transclusion r.node) :
    ((⟨a, t.root⟩ : ScopeTree).relink owner old new r.node).Rooted := by
  obtain ⟨ro, hro, hmem⟩ := h.owns_of_parent hr hp
  have hlinked := h.linked owner ro hro
  have howner := owner_kept h hr hro hmem hg
  obtain ⟨named, hrecord, hnamed⟩ := get?_relink ⟨a, t.root⟩ new hlinked hr hmem howner
  have hsound : ((⟨a, t.root⟩ : ScopeTree).relink owner old new r.node).arena.Sound :=
    (hg.sound.modify _ _).modify _ _
  have hroot : ((⟨a, t.root⟩ : ScopeTree).relink owner old new r.node).root = t.root := rfl
  generalize (⟨a, t.root⟩ : ScopeTree).relink owner old new r.node = t' at *
  have hface := fun x s => face_relink (x := x) (s := s) h hr hro hmem hg hrecord
  have hstands : Arena.Stands t'.arena new (some owner) r.transclusion r.node := by
    obtain ⟨s, hsn, hsp, hst, hsnode⟩ := hs
    obtain ⟨s', hs', hf⟩ := hface new s hsn
    exact ⟨s', hs', ScopeRecord.parent_of_face hf ▸ hsp,
      ScopeRecord.transclusion_of_face hf ▸ hst, ScopeRecord.node_of_face hf ▸ hsnode⟩
  have hcases := fun x s => relink_cases (x := x) (s := s) h hr hg hrecord
  have hownerreach := h.not_reaches_owner ⟨ro, hro, hmem⟩
  have hreached := fun x s => reached_left (x := x) (s := s) h hr hro hmem hg hrecord
  have hrootreach := h.not_reaches_root ⟨ro, hro, hmem⟩
  refine ⟨hsound, ?_, ?_, ?_, ?_⟩
  · obtain ⟨s, hs, hsp, hst⟩ := h.root
    obtain ⟨s', hs', hf⟩ := face_left h hr hro hmem hg hrecord hs hrootreach
    exact ⟨s', hroot ▸ hs', ScopeRecord.parent_of_face hf ▸ hsp,
      ScopeRecord.transclusion_of_face hf ▸ hst⟩
  · intro x s hx
    rcases hcases x s hx with ⟨rfl, rfl⟩ | ⟨hxo, hxa, hnew⟩ | ⟨hxo, hxt, hreach⟩
    · refine linked_spliced hlinked hr hstands ?_ (new_not_owned h hr hro hmem hg) hnamed
      intro c hc hco sc hsc
      refine face_left h hr hro hmem hg hrecord hsc ?_
      intro hold
      rcases (h.reaches_iff_of_owns ⟨ro, hro, hc⟩).mp hold with he | he
      · exact hco he
      · exact hownerreach he
    · exact (hg.linked x s hnew hxa).congr rfl fun c _ rc hrc => hface c rc hrc
    · exact linked_left h hr hro hmem hg hrecord hxt hreach hxo
  · intro x s hx
    rcases hcases x s hx with ⟨rfl, rfl⟩ | ⟨-, hxa, hnew⟩ | ⟨-, hxt, hreach⟩
    · rcases h.owner x ro hro with he | ⟨p, hpp, hown⟩
      · exact Or.inl (hroot ▸ he)
      · exact Or.inr ⟨p, hpp, owns_left h hr hro hmem hg hrecord hown hownerreach⟩
    · rcases hg.owner x s hnew hxa with ht | ⟨p, hpnew, hpp, s', hs', hxs⟩
      · obtain rfl := List.mem_singleton.mp ht
        obtain ⟨s', hs', hsp, -⟩ := hs
        obtain rfl : s' = s := Option.some.inj (hs'.symm.trans hxa)
        exact Or.inr ⟨owner, hsp, owner_owns_new hmem hrecord⟩
      · exact Or.inr ⟨p, hpp, owns_grown h hr hro hmem hrecord ⟨hpnew, s', hs', hxs⟩⟩
    · rcases h.owner x s hxt with he | ⟨p, hpp, hown⟩
      · exact Or.inl (hroot ▸ he)
      · exact Or.inr ⟨p, hpp, owns_left h hr hro hmem hg hrecord hown hreach⟩
  · intro x s hx
    rw [hroot]
    rcases hcases x s hx with ⟨rfl, -⟩ | ⟨-, hxa, hnew⟩ | ⟨-, hxt, hreach⟩
    · exact hreached x ro hro hownerreach
    · obtain ⟨i, hi, hpath⟩ := hg.reached x s hnew hxa
      obtain rfl := List.mem_singleton.mp hi
      refine ((hreached owner ro hro hownerreach).tail
        (owner_owns_new hmem hrecord)).trans ?_
      exact ReflTransGen.mono (fun p c => owns_grown h hr hro hmem hrecord) _ _ hpath
    · exact hreached x s hxt hreach

/-- Rebuilding any scope from any document keeps a tree rooted. -/
theorem Rooted.rebuild (h : t.Rooted) {d : Document} {gone : List ScopeId} {t' : ScopeTree}
    (hrebuild : t.rebuild old d = .ok (new, gone, t')) : t'.Rooted := by
  obtain ⟨r, arena, hr, rfl, hplant, hcase⟩ := rebuild_cases hrebuild
  obtain ⟨hg, hs⟩ := Blueprint.plant_grown (sound_freeAll h.sound (t.owned old)) r.parent
    r.transclusion _ (d.keyed_unfold ((t.ancestors old).map (·.2.node)) r.node)
  rw [hplant] at hg hs
  rcases hcase with ⟨hp, rfl⟩ | ⟨owner, hp, rfl⟩
  · -- A scope without a parent is the root, so nothing is left beside what has grown.
    obtain rfl := h.eq_root_of_parent hr hp
    have hnone := cleared_root h hr
    obtain ⟨s, hsr, -, hst⟩ := h.root
    rw [hr] at hsr
    cases hsr
    rw [hp, hst] at hs
    exact rooted_of_grown hg hnone hs
  · rw [hp, Document.node_unfold] at hs
    exact h.relink hr hp hg hs

end ScopeTree

end FormulaOutline
