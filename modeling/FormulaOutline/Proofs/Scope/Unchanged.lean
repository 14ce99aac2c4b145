import FormulaOutline.Proofs.Scope.Spelling
import FormulaOutline.Proofs.Scope.WellFormed

/-!
# Rebuilding from an unchanged document

A rebuilt scope takes its path from the scopes above it, a scope that is built carries its path along.
Both spell the same blueprint, so that rebuilding from the document of the tree gives other ids to
scopes and changes nothing else.

* `Renames`: two trees are the same up to the ids of their scopes.
* `exists_renames`: fresh trees whose roots spell the same blueprint are the same up to ids.
* `spelled_rebuild`: after a rebuilding the root spells what it has spelled before.
* `exists_renames_rebuildAll`: after any rebuildings a tree is that of the document up to ids.
-/

namespace FormulaOutline

open Relation Formula

/-- In a list without repetitions each element has one partner. -/
theorem eq_of_mem_zip {α β : Type} {l : List α} {l' : List β} (hl : l.Nodup) {x : α} {y z : β}
    (hy : (x, y) ∈ l.zip l') (hz : (x, z) ∈ l.zip l') : y = z := by
  induction l generalizing l' with
  | nil => cases hy
  | cons a l ih =>
    rw [List.nodup_cons] at hl
    cases l' with
    | nil => cases hy
    | cons b l' =>
      rw [List.zip_cons_cons, List.mem_cons, Prod.mk.injEq] at hy hz
      rcases hy with ⟨rfl, rfl⟩ | hy
      · rcases hz with ⟨-, rfl⟩ | hz
        · rfl
        · exact (hl.1 (List.of_mem_zip hz).1).elim
      · rcases hz with ⟨rfl, -⟩ | hz
        · exact (hl.1 (List.of_mem_zip hy).1).elim
        · exact ih hl.2 hy hz

/-- A record in which all scopes have got other ids. -/
def ScopeRecord.rename (f : ScopeId → ScopeId) (r : ScopeRecord) : ScopeRecord :=
  { r with
    parent := r.parent.map f
    children := r.children.map f
    transcluded := r.transcluded.map fun e => (e.1, f e.2)
    named := r.named.map fun e => (e.1, f e.2) }

/-- The index of keys goes with the scopes to other ids. -/
theorem Arena.firstByKey_map {a a' : Arena ScopeRecord} {f : ScopeId → ScopeId}
    {ids : List ScopeId} (h : ∀ c ∈ ids, a'.key? (f c) = a.key? c) (found : List (String × ScopeId)) :
    a'.firstByKey (ids.map f) (found.map fun e => (e.1, f e.2)) =
      (a.firstByKey ids found).map fun e => (e.1, f e.2) := by
  induction ids generalizing found with
  | nil => rfl
  | cons id rest ih =>
    rw [List.forall_mem_cons] at h
    rw [List.map_cons, firstByKey_cons, firstByKey_cons, h.1]
    cases a.key? id with
    | none => exact ih h.2 found
    | some key =>
      have hAny : (found.map fun e => (e.1, f e.2)).any (·.1 == key) =
          found.any (·.1 == key) := by rw [List.any_map]; rfl
      have hMore := ih h.2 (found ++ [(key, id)])
      rw [List.map_append, List.map_singleton] at hMore
      simp only [hAny, hMore, ih h.2 found]
      split <;> rfl

namespace ScopeTree

/-- The scopes of a tree have got other ids in another one, which is the same otherwise. -/
structure Renames (t u : ScopeTree) (f : ScopeId → ScopeId) : Prop where
  root : f t.root = u.root
  record : ∀ x r, t.record? x = some r → u.record? (f x) = some (r.rename f)
  injective : ∀ x y, t.isLive x = true → t.isLive y = true → f x = f y → x = y
  surjective : ∀ y, u.isLive y = true → ∃ x, t.isLive x = true ∧ f x = y

/-- No scope shows a trace of evaluation. -/
def IsFresh (t : ScopeTree) : Prop := ∀ x r, t.record? x = some r → r.shape = r

/-! ## Trees of one blueprint -/

/-- Two scopes have the same place in two trees: both are roots, or both have the same place among
what scopes of the same place own. -/
inductive Matches (t u : ScopeTree) : ScopeId → ScopeId → Prop
  | root : Matches t u t.root u.root
  | owned {x y c e : ScopeId} {r s : ScopeRecord} : Matches t u x y → t.record? x = some r →
      u.record? y = some s → (c, e) ∈ r.owned.zip s.owned → Matches t u c e

variable {t t' u : ScopeTree} {x y z : ScopeId} {r s : ScopeRecord} {b : Blueprint}

theorem Matches.swap (h : Matches t u x y) : Matches u t y x := by
  induction h with
  | root => exact .root
  | owned _ hr hs hMem ih =>
    refine .owned ih hs hr ?_
    rw [← List.zip_swap]
    exact List.mem_map_of_mem hMem

/-- In a tree a scope has one place only. -/
theorem Matches.unique (ht : t.Rooted) (h : Matches t u x y) (h' : Matches t u x z) : y = z := by
  induction h generalizing z with
  | root =>
    cases h' with
    | root => rfl
    | owned _ hr _ hMem => exact (ht.not_owns_root ⟨_, hr, (List.of_mem_zip hMem).1⟩).elim
  | @owned p q c e r s _ hr hs hMem ih =>
    cases h' with
    | root => exact (ht.not_owns_root ⟨_, hr, (List.of_mem_zip hMem).1⟩).elim
    | @owned p' q' _ e' r' s' h' hr' hs' hMem' =>
      obtain rfl := ht.owner_unique ⟨r, hr, (List.of_mem_zip hMem).1⟩
        ⟨r', hr', (List.of_mem_zip hMem').1⟩
      obtain rfl := Option.some.inj (hr.symm.trans hr')
      obtain rfl := ih h'
      obtain rfl := Option.some.inj (hs.symm.trans hs')
      exact eq_of_mem_zip (ht.linked _ _ hr).nodup hMem hMem'

/-- Two scopes spell the same blueprint. -/
def Alike (t u : ScopeTree) (x y : ScopeId) : Prop :=
  ∃ b : Blueprint, b.SpelledBy t.arena x ∧ b.SpelledBy u.arena y

theorem forall₂_alike {bs : List Blueprint} {xs ys : List ScopeId}
    (h : Blueprint.AllSpelledBy t.arena bs xs) (h' : Blueprint.AllSpelledBy u.arena bs ys) :
    List.Forall₂ (Alike t u) xs ys := by
  induction bs generalizing xs ys with
  | nil =>
    obtain rfl : xs = [] := h
    obtain rfl : ys = [] := h'
    exact .nil
  | cons b rest ih =>
    obtain ⟨x, xs, rfl, hb, hRest⟩ := h
    obtain ⟨y, ys, rfl, hb', hRest'⟩ := h'
    exact .cons ⟨b, hb, hb'⟩ (ih hRest hRest')

/-- What the records of two scopes say if the scopes spell the same. -/
structure Agree (t u : ScopeTree) (r s : ScopeRecord) : Prop where
  node : s.node = r.node
  placeholder : s.placeholder = r.placeholder
  bullet : s.bullet = r.bullet
  children : List.Forall₂ (Alike t u) r.children s.children
  references : List.Forall₂ (Alike t u) (r.transcluded.map Prod.snd) (s.transcluded.map Prod.snd)

theorem Alike.agree (ht : t.Rooted) (hu : u.Rooted) (h : Alike t u x y)
    (hr : t.record? x = some r) (hs : u.record? y = some s) : Agree t u r s := by
  obtain ⟨b, hb, hb'⟩ := h
  cases b with
  | placeholder n =>
    obtain ⟨r', hr', rfl, hp, ho⟩ := hb
    obtain ⟨s', hs', hNode, hp', ho'⟩ := hb'
    obtain rfl := Option.some.inj (hr.symm.trans hr')
    obtain rfl := Option.some.inj (hs.symm.trans hs')
    have hBullet := ((ht.linked x r hr).blank hp).1
    have hBullet' := ((hu.linked y s hs).blank hp').1
    rw [ScopeRecord.owned, List.append_eq_nil_iff] at ho ho'
    refine ⟨hNode, hp'.trans hp.symm, hBullet'.trans hBullet.symm, ?_, ?_⟩
    · rw [ho.1, ho'.1]
      exact .nil
    · rw [ho.2, ho'.2]
      exact .nil
  | scope n bullet children references =>
    obtain ⟨r', hr', rfl, hp, rfl, hc, he⟩ := hb
    obtain ⟨s', hs', hNode, hp', hBullet, hc', he'⟩ := hb'
    obtain rfl := Option.some.inj (hr.symm.trans hr')
    obtain rfl := Option.some.inj (hs.symm.trans hs')
    exact ⟨hNode, hp'.trans hp.symm, hBullet, forall₂_alike hc hc', forall₂_alike he he'⟩

theorem Agree.zip_owned (h : Agree t u r s) : r.owned.zip s.owned =
    r.children.zip s.children ++ (r.transcluded.map Prod.snd).zip (s.transcluded.map Prod.snd) :=
  List.zip_append h.children.length_eq

section Same

variable (ht : t.Rooted) (hu : u.Rooted) (hb : b.SpelledBy t.arena t.root)
  (hb' : b.SpelledBy u.arena u.root)
include ht hu hb hb'

theorem Matches.alike (h : Matches t u x y) : Alike t u x y := by
  induction h with
  | root => exact ⟨b, hb, hb'⟩
  | owned _ hr hs hMem ih =>
    have hAgree := ih.agree ht hu hr hs
    rw [hAgree.zip_owned, List.mem_append] at hMem
    rcases hMem with hMem | hMem
    · exact List.forall₂_zip hAgree.children hMem
    · exact List.forall₂_zip hAgree.references hMem

theorem Matches.live (h : Matches t u x y) : ∃ r s, t.record? x = some r ∧ u.record? y = some s ∧
    Agree t u r s := by
  have hAlike := h.alike ht hu hb hb'
  obtain ⟨b, hx, hy⟩ := id hAlike
  obtain ⟨r, hr, -⟩ := hx.node
  obtain ⟨s, hs, -⟩ := hy.node
  exact ⟨r, s, hr, hs, hAlike.agree ht hu hr hs⟩

theorem exists_matches (hx : t.isLive x = true) : ∃ y, Matches t u x y := by
  obtain ⟨r, hr⟩ := isLive_iff.mp hx
  have hReached := ht.reached x r hr
  clear hx hr
  induction hReached with
  | refl => exact ⟨u.root, .root⟩
  | @tail p c _ hOwns ih =>
    obtain ⟨q, hq⟩ := ih
    obtain ⟨rp, s, hp, hs, hAgree⟩ := hq.live ht hu hb hb'
    obtain ⟨rp', hp', hc⟩ := hOwns
    obtain rfl := Option.some.inj (hp.symm.trans hp')
    have hLength : rp.owned.length ≤ s.owned.length := by
      rw [ScopeRecord.owned, ScopeRecord.owned, List.length_append, List.length_append,
        hAgree.children.length_eq, hAgree.references.length_eq]
    rw [← List.map_fst_zip hLength] at hc
    obtain ⟨e, he, rfl⟩ := List.mem_map.mp hc
    exact ⟨e.2, .owned hq hp hs he⟩

section Renamed

variable {f : ScopeId → ScopeId} (hf : ∀ x y, Matches t u x y → f x = y)
include hf

theorem Matches.parent (h : Matches t u x y) (hr : t.record? x = some r)
    (hs : u.record? y = some s) :
    s.parent = r.parent.map f ∧ s.transclusion = r.transclusion := by
  cases h with
  | root =>
    obtain ⟨r', hr', hp, ht'⟩ := ht.root
    obtain ⟨s', hs', hp', hu'⟩ := hu.root
    obtain rfl := Option.some.inj (hr.symm.trans hr')
    obtain rfl := Option.some.inj (hs.symm.trans hs')
    exact ⟨by rw [hp, hp', Option.map_none], hu'.trans ht'.symm⟩
  | @owned p q _ _ rp sq hpq hp hq hMem =>
    have hLinked := ht.linked p rp hp
    have hLinked' := hu.linked q sq hq
    rw [((hpq.alike ht hu hb hb').agree ht hu hp hq).zip_owned, List.mem_append] at hMem
    rcases hMem with hMem | hMem
    · obtain ⟨r', hr', hParent, hFlag⟩ := hLinked.child x (List.of_mem_zip hMem).1
      obtain ⟨s', hs', hParent', hFlag'⟩ := hLinked'.child y (List.of_mem_zip hMem).2
      obtain rfl := Option.some.inj (hr.symm.trans hr')
      obtain rfl := Option.some.inj (hs.symm.trans hs')
      exact ⟨by rw [hParent, hParent', Option.map_some, hf p q hpq], hFlag'.trans hFlag.symm⟩
    · obtain ⟨e, he, rfl⟩ := List.mem_map.mp (List.of_mem_zip hMem).1
      obtain ⟨e', he', rfl⟩ := List.mem_map.mp (List.of_mem_zip hMem).2
      obtain ⟨r', hr', hParent, hFlag, -⟩ := hLinked.reference e he
      obtain ⟨s', hs', hParent', hFlag', -⟩ := hLinked'.reference e' he'
      obtain rfl := Option.some.inj (hr.symm.trans hr')
      obtain rfl := Option.some.inj (hs.symm.trans hs')
      exact ⟨by rw [hParent, hParent', Option.map_some, hf p q hpq], hFlag'.trans hFlag.symm⟩

theorem Matches.owned_eq (h : Matches t u x y) (hr : t.record? x = some r)
    (hs : u.record? y = some s) :
    s.children = r.children.map f ∧ s.transcluded = r.transcluded.map fun e => (e.1, f e.2) := by
  have hAgree := (h.alike ht hu hb hb').agree ht hu hr hs
  have hMap : ∀ {xs ys : List ScopeId}, xs.length = ys.length →
      (∀ e ∈ xs.zip ys, e ∈ r.owned.zip s.owned) → ys = xs.map f := by
    intro xs ys hLength hZip
    have hEach : List.Forall₂ (fun c e => f c = e) xs ys :=
      List.forall₂_iff_zip.mpr ⟨hLength, fun hMem => hf _ _ (.owned h hr hs (hZip _ hMem))⟩
    rw [← List.forall₂_map_left_iff, List.forall₂_eq_eq_eq] at hEach
    exact hEach.symm
  have hReferences := hMap hAgree.references.length_eq fun e he => by
    rw [hAgree.zip_owned]
    exact List.mem_append_right _ he
  refine ⟨hMap hAgree.children.length_eq fun e he => by
    rw [hAgree.zip_owned]
    exact List.mem_append_left _ he, ?_⟩
  have hKeys : s.transcluded.map Prod.fst = r.transcluded.map Prod.fst := by
    rw [(ht.linked x r hr).keys, (hu.linked y s hs).keys, hAgree.bullet]
  rw [List.zip_of_prod hKeys hReferences]
  symm
  exact List.zip_of_prod (by simp [Function.comp_def]) (by simp [Function.comp_def])

theorem Matches.named_eq (h : Matches t u x y) (hr : t.record? x = some r)
    (hs : u.record? y = some s) : s.named = r.named.map fun e => (e.1, f e.2) := by
  obtain ⟨hChildren, -⟩ := h.owned_eq ht hu hb hb' hf hr hs
  have hAgree := (h.alike ht hu hb hb').agree ht hu hr hs
  have hKey : ∀ c ∈ r.children, u.arena.key? (f c) = t.arena.key? c := by
    intro c hc
    obtain ⟨rc, hrc, -⟩ := (ht.linked x r hr).child c hc
    rw [← List.map_fst_zip (Nat.le_of_eq hAgree.children.length_eq)] at hc
    obtain ⟨⟨c, e⟩, he, rfl⟩ := List.mem_map.mp hc
    have hMatches : Matches t u c e := .owned h hr hs (by
      rw [hAgree.zip_owned]
      exact List.mem_append_left _ he)
    obtain ⟨rc', se, hrc', hse, hSame⟩ := hMatches.live ht hu hb hb'
    rw [hf c e hMatches, Arena.key?, Arena.key?, show u.arena.get? e = some se from hse,
      show t.arena.get? c = some rc' from hrc', Option.bind_some, Option.bind_some,
      ScopeRecord.key?, ScopeRecord.key?, hSame.bullet]
  have hIndex := Arena.firstByKey_map hKey []
  rw [← hChildren] at hIndex
  rw [(ht.linked x r hr).named, (hu.linked y s hs).named]
  exact hIndex

/-- The place of a scope decides everything about it but the trace of its evaluation. -/
theorem Matches.rename (h : Matches t u x y) (hr : t.record? x = some r)
    (hs : u.record? y = some s) : s.shape = (r.rename f).shape := by
  have hAgree := (h.alike ht hu hb hb').agree ht hu hr hs
  obtain ⟨hParent, hFlag⟩ := h.parent ht hu hb hb' hf hr hs
  obtain ⟨hChildren, hTranscluded⟩ := h.owned_eq ht hu hb hb' hf hr hs
  have hNamed := h.named_eq ht hu hb hb' hf hr hs
  simp only [ScopeRecord.shape, ScopeRecord.rename, hAgree.node, hAgree.bullet,
    hAgree.placeholder, hParent, hFlag, hChildren, hTranscluded, hNamed]

end Renamed

/-- Fresh trees of one blueprint are the same up to ids. -/
theorem exists_renames (hFresh : t.IsFresh) (hFresh' : u.IsFresh) : ∃ f, t.Renames u f := by
  have hEach : ∀ x, ∃ y, t.isLive x = true → Matches t u x y := by
    intro x
    by_cases hx : t.isLive x = true
    · obtain ⟨y, hy⟩ := exists_matches ht hu hb hb' hx
      exact ⟨y, fun _ => hy⟩
    · exact ⟨x, fun h => (hx h).elim⟩
  choose f hMatches using hEach
  have hf : ∀ x y, Matches t u x y → f x = y := by
    intro x y h
    obtain ⟨r, -, hr, -⟩ := h.live ht hu hb hb'
    exact (hMatches x (isLive_iff.mpr ⟨r, hr⟩)).unique ht h
  refine ⟨f, hf _ _ .root, ?_, ?_, ?_⟩
  · intro x r hr
    have h := hMatches x (isLive_iff.mpr ⟨r, hr⟩)
    obtain ⟨r', s, hr', hs, -⟩ := h.live ht hu hb hb'
    have hShape := h.rename ht hu hb hb' hf hr hs
    rw [hs, ← hFresh' _ s hs, hShape, ← hFresh x r hr]
    rfl
  · intro x y hx hy hxy
    have hy' := hMatches y hy
    rw [← hxy] at hy'
    exact Matches.unique hu (hMatches x hx).swap hy'.swap
  · intro y hy
    obtain ⟨x, hx⟩ := exists_matches hu ht hb' hb hy
    obtain ⟨-, r, -, hr, -⟩ := hx.live hu ht hb' hb
    exact ⟨x, isLive_iff.mpr ⟨r, hr⟩, hf x y hx.swap⟩

end Same

/-! ## Building -/

variable {d d' : Document} {old new : ScopeId} {gone : List ScopeId}

theorem isFresh_build (d : Document) : (build d).IsFresh := fun _ _ hr => shape_build d hr

theorem spelled_build (d : Document) :
    (d.unfold [] d.root).SpelledBy (build d).arena (build d).root :=
  Blueprint.plant_spelled Arena.sound_empty none false _ (d.keyed_unfold [] d.root)

/-! ## Rebuilding -/

theorem IsFresh.rebuild (hFresh : t.IsFresh) (h : t.Rooted)
    (hRebuild : t.rebuild old d' = .ok (new, gone, t')) : t'.IsFresh := by
  obtain ⟨r, arena, hr, rfl, hPlant, hCase⟩ := rebuild_cases hRebuild
  obtain ⟨hg, -⟩ := Blueprint.plant_grown (sound_freeAll h.sound (t.owned old)) r.parent
    r.transclusion _ (d'.keyed_unfold ((t.ancestors old).map (·.2.node)) r.node)
  rw [hPlant] at hg
  have hArena : ∀ x s, arena.get? x = some s → s.shape = s := by
    intro x s hs
    rcases hg.new_or_kept hs with hNew | hKept
    · exact hg.fresh x s hNew hs
    · exact hFresh x s ((get?_cleared h hr).mp hKept).2
  rcases hCase with ⟨-, rfl⟩ | ⟨owner, hp, rfl⟩
  · exact hArena
  · obtain ⟨ro, hro, hMem⟩ := h.owns_of_parent hr hp
    have hOwner := owner_kept h hr hro hMem hg
    obtain ⟨named, hRecord, -⟩ :=
      get?_relink ⟨arena, t.root⟩ new (h.linked owner ro hro) hr hMem hOwner
    intro x s hs
    have hs' := (hRecord x).symm.trans hs
    split at hs'
    · obtain rfl := Option.some.inj hs'
      change spliced old new named ro.shape = _
      rw [hFresh owner ro hro]
    · exact hArena x s hs'

section Relinked

variable {a : Arena ScopeRecord} {owner : ScopeId} {ro : ScopeRecord}
  {named : List (String × ScopeId)} (h : t.Rooted) (hr : t.record? old = some r)
  (hro : t.record? owner = some ro) (hMem : old ∈ ro.owned)
  (hg : Arena.Grown (t.freeAll (t.owned old)).arena a [new])
  (hRecord : ∀ x, t'.record? x = if x = owner then some (spliced old new named ro) else a.get? x)
include h hr hro hMem hg hRecord

/-- A new scope spells the same after its owner has been relinked. -/
theorem spelled_new (hNew : b.SpelledBy a new) : b.SpelledBy t'.arena new := by
  have hOwner : ∀ x s, (t.freeAll (t.owned old)).arena.get? x = none → a.get? x = some s →
      t'.arena.get? x = some s := by
    intro x s hx hs
    refine (hRecord x).trans ((if_neg ?_).trans hs)
    rintro rfl
    rw [(get?_cleared h hr).mpr ⟨h.not_reaches_owner ⟨ro, hro, hMem⟩, hro⟩] at hx
    cases hx
  exact Blueprint.SpelledBy.transfer (Blueprint.goes_of_grown hg hOwner) b new
    (hg.tops_new new (List.mem_singleton_self _)) hNew

/-- Where the new scope spells what the old one has spelled, all scopes above do so. -/
theorem spelled_swap (hOld : b.SpelledBy t.arena old) (hNew : b.SpelledBy t'.arena new)
    {b' : Blueprint} (hx : ¬ t.arena.Reaches old x) (hSpelled : b'.SpelledBy t.arena x) :
    b'.SpelledBy t'.arena x := by
  have hGoes : Blueprint.Goes t.arena t'.arena (ScopeRecord.swap old new)
      (fun y => y = old ∨ ¬ t.arena.Reaches old y) := by
    intro y s hy hs
    rcases hy with rfl | hy
    · refine Or.inl fun b' hb' => ?_
      rw [ScopeRecord.swap_self, Blueprint.SpelledBy.unique b' b y hb' hOld]
      exact hNew
    · have hyo : y ≠ old := by
        rintro rfl
        exact hy .refl
      have hBelow : ∀ c ∈ s.owned, c = old ∨ ¬ t.arena.Reaches old c := by
        intro c hc
        by_cases hReach : t.arena.Reaches old c
        · exact Or.inl (((h.reaches_iff_of_owns ⟨s, hs, hc⟩).mp hReach).resolve_right hy)
        · exact Or.inr hReach
      refine Or.inr ⟨?_, hBelow⟩
      rw [ScopeRecord.swap_of_ne new hyo]
      by_cases hyw : y = owner
      · subst hyw
        obtain rfl : ro = s := Option.some.inj (hro.symm.trans hs)
        refine ⟨_, (hRecord y).trans (if_pos rfl), rfl, rfl, rfl, rfl, ?_⟩
        simp [spliced]
      · -- No other scope owns the old one, so its record stays.
        have hNot : old ∉ s.owned := fun hc => hyw (h.owner_unique ⟨s, hs, hc⟩ ⟨ro, hro, hMem⟩)
        rw [ScopeRecord.owned, List.mem_append, not_or] at hNot
        have hKept := hg.kept y s ((get?_cleared h hr).mpr ⟨hy, hs⟩)
        exact ⟨s, (hRecord y).trans ((if_neg hyw).trans hKept), rfl, rfl, rfl,
          (ScopeRecord.map_swap_of_not_mem new hNot.1).symm,
          (ScopeRecord.map_swap_of_not_mem new hNot.2).symm⟩
  have hSwap := Blueprint.SpelledBy.transfer hGoes b' x (Or.inr hx) hSpelled
  rwa [ScopeRecord.swap_of_ne] at hSwap
  rintro rfl
  exact hx .refl

end Relinked

/-- Rebuilding from the same document makes a scope that spells what the old one has spelled. -/
theorem spelled_rebuild (h : t.Rooted) (hSpelled : (d.unfold [] d.root).SpelledBy t.arena t.root)
    (hRebuild : t.rebuild old d = .ok (new, gone, t')) :
    (d.unfold [] d.root).SpelledBy t'.arena t'.root := by
  obtain ⟨r, arena, hr, rfl, hPlant, hCase⟩ := rebuild_cases hRebuild
  have hOld := h.spelled_at hSpelled hr
  have hSound := sound_freeAll h.sound (t.owned old)
  have hKeyed := d.keyed_unfold (t.pathOf old) r.node
  obtain ⟨hg, -⟩ := Blueprint.plant_grown hSound r.parent r.transclusion _ hKeyed
  have hNew := Blueprint.plant_spelled hSound r.parent r.transclusion _ hKeyed
  change (d.unfold (t.pathOf old) r.node).plant _ _ _ = _ at hPlant
  rw [hPlant] at hg hNew
  rcases hCase with ⟨hp, rfl⟩ | ⟨owner, hp, rfl⟩
  · obtain rfl := h.eq_root_of_parent hr hp
    rwa [Blueprint.SpelledBy.unique _ _ _ hOld hSpelled] at hNew
  · obtain ⟨ro, hro, hMem⟩ := h.owns_of_parent hr hp
    have hOwner := owner_kept h hr hro hMem hg
    obtain ⟨named, hRecord, -⟩ :=
      get?_relink ⟨arena, t.root⟩ new (h.linked owner ro hro) hr hMem hOwner
    have hNew' := spelled_new h hr hro hMem hg hRecord hNew
    exact spelled_swap h hr hro hMem hg hRecord hOld hNew' (h.not_reaches_root ⟨ro, hro, hMem⟩)
      hSpelled

/-! ## All rebuildings -/

/-- Rebuilds several scopes, one after the other, from the same document. -/
def rebuildAll (t : ScopeTree) (d : Document) : List ScopeId → Except EvalError ScopeTree
  | [] => .ok t
  | id :: ids =>
      match t.rebuild id d with
      | .ok (_, _, t') => t'.rebuildAll d ids
      | .error e => .error e

/-- A fresh tree that spells what a document unfolds to. -/
structure Unrolls (t : ScopeTree) (d : Document) : Prop where
  rooted : t.Rooted
  fresh : t.IsFresh
  spelled : (d.unfold [] d.root).SpelledBy t.arena t.root

theorem unrolls_build (d : Document) : (build d).Unrolls d :=
  ⟨rooted_build d, isFresh_build d, spelled_build d⟩

theorem Unrolls.rebuild (h : t.Unrolls d) (hRebuild : t.rebuild old d = .ok (new, gone, t')) :
    t'.Unrolls d :=
  ⟨h.rooted.rebuild hRebuild, h.fresh.rebuild h.rooted hRebuild,
    spelled_rebuild h.rooted h.spelled hRebuild⟩

theorem Unrolls.rebuildAll {ids : List ScopeId} (h : t.Unrolls d)
    (hRebuild : t.rebuildAll d ids = .ok t') : t'.Unrolls d := by
  induction ids generalizing t with
  | nil =>
    cases hRebuild
    exact h
  | cons id ids ih =>
    rw [ScopeTree.rebuildAll] at hRebuild
    split at hRebuild
    · rename_i hFirst
      exact ih (h.rebuild hFirst) hRebuild
    · cases hRebuild

/-- After any rebuildings from the document of a tree, the tree is still that of the document up to
ids, and each of its scopes can be rebuilt again. -/
theorem exists_renames_rebuildAll (d : Document) {ids : List ScopeId}
    (h : (build d).rebuildAll d ids = .ok t) :
    (∃ f, (build d).Renames t f) ∧
      ∀ x, t.isLive x = true → ∃ new gone t', t.rebuild x d = .ok (new, gone, t') := by
  have hBuild := unrolls_build d
  have hAfter := hBuild.rebuildAll h
  exact ⟨exists_renames hBuild.rooted hAfter.rooted hBuild.spelled hAfter.spelled hBuild.fresh
    hAfter.fresh, fun x hx => exists_rebuild (isLive_iff.mp hx).choose_spec d⟩

/-- Nodes that refer to each other, to themselves and to what is missing, one of them from below. -/
def circular : Document :=
  ⟨"root", [⟨"root", "", ["a", "b"]⟩, ⟨"a", "k: \x7b#[b]\x7d", ["c"]⟩,
    ⟨"b", "k: \x7b#[a]\x7d \x7b#[gone]\x7d", []⟩, ⟨"c", "\x7b#[c]\x7d \x7b#[b]\x7d", []⟩], 0⟩

/-- A placeholder in a reference, a child in a reference, a reference, the root, a scope of the new
tree. -/
theorem exists_renames_rebuildAll_circular :
    ∃ t f, (build circular).rebuildAll circular [⟨5, 0⟩, ⟨12, 0⟩, ⟨7, 0⟩, ⟨0, 0⟩, ⟨13, 2⟩] = .ok t ∧
      (build circular).Renames t f := by
  have hSome : ((build circular).rebuildAll circular
      [⟨5, 0⟩, ⟨12, 0⟩, ⟨7, 0⟩, ⟨0, 0⟩, ⟨13, 2⟩]).toOption.isSome = true := by cbv
  cases h : (build circular).rebuildAll circular [⟨5, 0⟩, ⟨12, 0⟩, ⟨7, 0⟩, ⟨0, 0⟩, ⟨13, 2⟩] with
  | error e =>
    rw [h] at hSome
    cases hSome
  | ok t =>
    obtain ⟨⟨f, hf⟩, -⟩ := exists_renames_rebuildAll circular h
    exact ⟨t, f, rfl, hf⟩

end ScopeTree

end FormulaOutline
