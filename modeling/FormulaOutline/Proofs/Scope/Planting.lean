import FormulaOutline.Proofs.Scope.Links

/-!
# Planting blueprints

What an arena looks like after the scopes of a blueprint have been made in it.

* `Grown`: the new scopes are linked among each other, and each of them is reached from one at the
  top.
* `plant_grown`: planting a blueprint lets an arena grow by one scope at the top.
* `keyed_unfold`: the blueprints of documents name the nodes that their bullets refer to.
-/

namespace FormulaOutline

/-! ## Growth -/

namespace Arena

/-- A new scope owns another one. -/
def NewlyOwns (a a' : Arena ScopeRecord) (p c : ScopeId) : Prop := a.get? p = none ∧ a'.Owns p c

/-- One arena is another one with new scopes, which are owned by new scopes unless they are among
the given ones at the top. -/
structure Grown (a a' : Arena ScopeRecord) (tops : List ScopeId) : Prop where
  sound : a'.Sound
  generation : a'.generation = a.generation
  kept : ∀ x r, a.get? x = some r → a'.get? x = some r
  tops_new : ∀ i ∈ tops, a.get? i = none
  tops_live : ∀ i ∈ tops, ∃ r, a'.get? i = some r
  tops_nodup : tops.Nodup
  linked : ∀ x r, a.get? x = none → a'.get? x = some r → r.Linked a' x
  owned_new : ∀ x r, a.get? x = none → a'.get? x = some r → ∀ c ∈ r.owned, a.get? c = none
  owner : ∀ x r, a.get? x = none → a'.get? x = some r →
    x ∈ tops ∨ ∃ p, a.get? p = none ∧ r.parent = some p ∧ a'.Owns p x
  fresh : ∀ x r, a.get? x = none → a'.get? x = some r → r.shape = r
  reached : ∀ x r, a.get? x = none → a'.get? x = some r →
    ∃ i ∈ tops, Relation.ReflTransGen (NewlyOwns a a') i x

/-- A scope has the given parent, kind and node. -/
def Stands (a : Arena ScopeRecord) (id : ScopeId) (parent : Option ScopeId) (transclusion : Bool)
    (node : NodeId) : Prop :=
  ∃ r, a.get? id = some r ∧ r.parent = parent ∧ r.transclusion = transclusion ∧ r.node = node

variable {a a' a'' : Arena ScopeRecord} {tops tops' : List ScopeId}

theorem Grown.refl (ha : a.Sound) : Grown a a [] where
  sound := ha
  generation := rfl
  kept := fun _ _ h => h
  tops_new := by simp
  tops_live := by simp
  tops_nodup := List.nodup_nil
  linked := fun x r hnone hsome => by rw [hnone] at hsome; cases hsome
  owned_new := fun x r hnone hsome => by rw [hnone] at hsome; cases hsome
  owner := fun x r hnone hsome => by rw [hnone] at hsome; cases hsome
  fresh := fun x r hnone hsome => by rw [hnone] at hsome; cases hsome
  reached := fun x r hnone hsome => by rw [hnone] at hsome; cases hsome

theorem Grown.none_of_none (h : Grown a a' tops) {x : ScopeId} (hx : a'.get? x = none) :
    a.get? x = none := by
  cases hax : a.get? x with
  | none => rfl
  | some r =>
    rw [h.kept x r hax] at hx
    cases hx

theorem Grown.owns (h : Grown a a' tops) (p c : ScopeId) (hpc : a.Owns p c) : a'.Owns p c := by
  obtain ⟨r, hr, hc⟩ := hpc
  exact ⟨r, h.kept p r hr, hc⟩

/-- A scope is new or has kept its record. -/
theorem Grown.new_or_kept (h : Grown a a' tops) {x : ScopeId} {r : ScopeRecord}
    (hx : a'.get? x = some r) : a.get? x = none ∨ a.get? x = some r := by
  cases hax : a.get? x with
  | none => exact Or.inl rfl
  | some s =>
    rw [h.kept x s hax] at hx
    exact Or.inr hx

theorem Grown.trans (h : Grown a a' tops) (h' : Grown a' a'' tops') :
    Grown a a'' (tops ++ tops') where
  sound := h'.sound
  generation := h'.generation.trans h.generation
  kept := fun x r hx => h'.kept x r (h.kept x r hx)
  tops_new := by
    intro i hi
    rcases List.mem_append.mp hi with hi | hi
    · exact h.tops_new i hi
    · exact h.none_of_none (h'.tops_new i hi)
  tops_live := by
    intro i hi
    rcases List.mem_append.mp hi with hi | hi
    · obtain ⟨r, hr⟩ := h.tops_live i hi
      exact ⟨r, h'.kept i r hr⟩
    · exact h'.tops_live i hi
  tops_nodup := by
    refine List.nodup_append.mpr ⟨h.tops_nodup, h'.tops_nodup, ?_⟩
    rintro x hx _ hx' rfl
    obtain ⟨r, hr⟩ := h.tops_live x hx
    rw [h'.tops_new x hx'] at hr
    cases hr
  linked := by
    intro x r hnew hx
    rcases h'.new_or_kept hx with hx' | hx'
    · exact h'.linked x r hx' hx
    · refine (h.linked x r hnew hx').congr rfl ?_
      intro c _ rc hrc
      exact ⟨rc, h'.kept c rc hrc, rfl⟩
  owned_new := by
    intro x r hnew hx c hc
    rcases h'.new_or_kept hx with hx' | hx'
    · exact h.none_of_none (h'.owned_new x r hx' hx c hc)
    · exact h.owned_new x r hnew hx' c hc
  owner := by
    intro x r hnew hx
    rcases h'.new_or_kept hx with hx' | hx'
    · rcases h'.owner x r hx' hx with ht | ⟨p, hp, hrp, hown⟩
      · exact Or.inl (List.mem_append_right _ ht)
      · exact Or.inr ⟨p, h.none_of_none hp, hrp, hown⟩
    · rcases h.owner x r hnew hx' with ht | ⟨p, hp, hrp, hown⟩
      · exact Or.inl (List.mem_append_left _ ht)
      · exact Or.inr ⟨p, hp, hrp, h'.owns p x hown⟩
  fresh := by
    intro x r hnew hx
    rcases h'.new_or_kept hx with hx' | hx'
    · exact h'.fresh x r hx' hx
    · exact h.fresh x r hnew hx'
  reached := by
    intro x r hnew hx
    rcases h'.new_or_kept hx with hx' | hx'
    · obtain ⟨i, hi, hr⟩ := h'.reached x r hx' hx
      exact ⟨i, List.mem_append_right _ hi,
        Relation.ReflTransGen.mono (fun p c hpc => ⟨h.none_of_none hpc.1, hpc.2⟩) _ _ hr⟩
    · obtain ⟨i, hi, hr⟩ := h.reached x r hnew hx'
      exact ⟨i, List.mem_append_left _ hi,
        Relation.ReflTransGen.mono (fun p c hpc => ⟨hpc.1, h'.owns p c hpc.2⟩) _ _ hr⟩

/-- A scope that is new below a new scope is that scope, or has grown after it. -/
theorem Grown.under_cases (ha : a.Sound) {v : ScopeRecord} (hg : Grown (a.alloc v).2 a' tops)
    (f : ScopeRecord → ScopeRecord) {x : ScopeId} {r : ScopeRecord} (hnew : a.get? x = none)
    (hx : (a'.modify (a.alloc v).1 f).get? x = some r) :
    (x = (a.alloc v).1 ∧ r = f v) ∨ ((a.alloc v).2.get? x = none ∧ a'.get? x = some r) := by
  by_cases hxid : x = (a.alloc v).1
  · subst hxid
    rw [get?_modify_of_some (hg.kept _ v (get?_alloc_self ha v))] at hx
    exact Or.inl ⟨rfl, (Option.some.inj hx).symm⟩
  · rw [get?_modify_of_ne hxid] at hx
    exact Or.inr ⟨(get?_alloc_ne ha v hxid).trans hnew, hx⟩

/-- Growth below a new scope without links: the scope gets the links to what has grown. -/
theorem Grown.under (ha : a.Sound) {v : ScopeRecord} (hv : v.owned = [])
    (hg : Grown (a.alloc v).2 a' tops) {f : ScopeRecord → ScopeRecord}
    (hf : (f v).owned = tops) (hshape : (f v).shape = f v)
    (hlinked : (f v).Linked (a'.modify (a.alloc v).1 f) (a.alloc v).1) :
    Grown a (a'.modify (a.alloc v).1 f) [(a.alloc v).1] := by
  have hcases := fun x r => @Grown.under_cases _ _ _ ha v hg f x r
  have hfresh := get?_alloc_fresh ha v
  have hid0 := get?_alloc_self ha v
  have halloc := fun x (hx : x ≠ (a.alloc v).1) => get?_alloc_ne ha v hx
  generalize (a.alloc v).1 = id at *
  have hid' : a'.get? id = some v := hg.kept id v hid0
  have hself : (a'.modify id f).get? id = some (f v) := get?_modify_of_some hid' f
  have hne : ∀ x, (a.alloc v).2.get? x = none → x ≠ id := by
    rintro x hx rfl
    rw [hid0] at hx
    cases hx
  have hnone : ∀ x, (a.alloc v).2.get? x = none → a.get? x = none := by
    intro x hx
    rw [← halloc x (hne x hx), hx]
  have howns : ∀ p c, a'.Owns p c → (a'.modify id f).Owns p c := by
    rintro p c ⟨r, hr, hc⟩
    refine ⟨r, ?_, hc⟩
    rw [get?_modify_of_ne, hr]
    rintro rfl
    rw [hid'] at hr
    cases hr
    rw [hv] at hc
    cases hc
  have htop : ∀ i ∈ tops, (a'.modify id f).Owns id i := fun i hi => ⟨f v, hself, hf ▸ hi⟩
  exact
    { sound := hg.sound.modify id f
      generation := by rw [generation_modify, hg.generation, generation_alloc ha]
      kept := by
        intro x r hx
        have hxid : x ≠ id := by
          rintro rfl
          rw [hfresh] at hx
          cases hx
        rw [get?_modify_of_ne hxid]
        exact hg.kept x r ((halloc x hxid).trans hx)
      tops_new := by simpa using hfresh
      tops_live := by simpa using ⟨f v, hself⟩
      tops_nodup := List.nodup_singleton id
      linked := by
        intro x r hnew hx
        rcases hcases x r hnew hx with ⟨rfl, rfl⟩ | ⟨hx0, hx'⟩
        · exact hlinked
        · refine (hg.linked x r hx0 hx').congr rfl ?_
          intro c hc rc hrc
          have hcid := hne c (hg.owned_new x r hx0 hx' c hc)
          exact ⟨rc, (get?_modify_of_ne hcid f).trans hrc, rfl⟩
      owned_new := by
        intro x r hnew hx c hc
        rcases hcases x r hnew hx with ⟨rfl, rfl⟩ | ⟨hx0, hx'⟩
        · exact hnone c (hg.tops_new c (hf ▸ hc))
        · exact hnone c (hg.owned_new x r hx0 hx' c hc)
      owner := by
        intro x r hnew hx
        rcases hcases x r hnew hx with ⟨rfl, rfl⟩ | ⟨hx0, hx'⟩
        · exact Or.inl (List.mem_singleton_self _)
        · rcases hg.owner x r hx0 hx' with ht | ⟨p, hp, hrp, hown⟩
          · obtain ⟨s, hs, hparent⟩ := hlinked.owned (c := x) (hf ▸ ht)
            rw [hx] at hs
            cases hs
            exact Or.inr ⟨id, hfresh, hparent, htop x ht⟩
          · exact Or.inr ⟨p, hnone p hp, hrp, howns p x hown⟩
      fresh := by
        intro x r hnew hx
        rcases hcases x r hnew hx with ⟨rfl, rfl⟩ | ⟨hx0, hx'⟩
        · exact hshape
        · exact hg.fresh x r hx0 hx'
      reached := by
        intro x r hnew hx
        refine ⟨id, List.mem_singleton_self id, ?_⟩
        rcases hcases x r hnew hx with ⟨rfl, rfl⟩ | ⟨hx0, hx'⟩
        · exact Relation.ReflTransGen.refl
        · obtain ⟨i, hi, hr⟩ := hg.reached x r hx0 hx'
          exact Relation.ReflTransGen.head ⟨hfresh, htop i hi⟩
            (Relation.ReflTransGen.mono (fun p c hpc => ⟨hnone p hpc.1, howns p c hpc.2⟩) _ _ hr) }

end Arena

/-! ## Blueprints -/

/-- A node that stands for its name alone has the links of a scope without any. -/
theorem linked_of_owned_eq_nil {a : Arena ScopeRecord} {id : ScopeId} {r : ScopeRecord}
    (hc : r.children = []) (ht : r.transcluded = []) (hn : r.named = [])
    (hb : r.bullet = .literal []) : r.Linked a id := by
  refine ⟨?_, ?_, ?_, ?_, ?_, fun _ => ⟨hb, hc⟩⟩
  · simp [ScopeRecord.owned, hc, ht]
  · simp [hc]
  · simp [ht]
  · rw [ht, hb]
    rfl
  · simp [hn, hc, Arena.firstByKey]

namespace Blueprint

mutual

/-- Every scope refers to the nodes that its bullet refers to. -/
def Keyed : Blueprint → Prop
  | placeholder _ => True
  | scope _ bullet children references =>
      references.map node = bullet.referencedIds ∧ AllKeyed children ∧ AllKeyed references

def AllKeyed : List Blueprint → Prop
  | [] => True
  | b :: rest => Keyed b ∧ AllKeyed rest

end

theorem allKeyed_iff {bs : List Blueprint} : AllKeyed bs ↔ ∀ b ∈ bs, b.Keyed := by
  induction bs with
  | nil => simp [AllKeyed]
  | cons b rest ih => simp [AllKeyed, ih]

open Arena in
/-- The links of a scope whose children and references have been planted below it. -/
theorem planted_linked {a a₁ a₂ : Arena ScopeRecord} (ha : a.Sound) {v : ScopeRecord}
    {children references : List Blueprint} {childIds referenceIds : List ScopeId}
    (hv : v.placeholder = false) (hkeys : references.map node = v.bullet.referencedIds)
    (hg : Grown (a.alloc v).2 a₁ childIds)
    (hs : List.Forall₂ (fun n id => Stands a₁ id (some (a.alloc v).1) false n)
      (children.map node) childIds)
    (hg' : Grown a₁ a₂ referenceIds)
    (hs' : List.Forall₂ (fun n id => Stands a₂ id (some (a.alloc v).1) true n)
      (references.map node) referenceIds) :
    ScopeRecord.Linked
      (a₂.modify (a.alloc v).1 fun r =>
        { r with
          children := childIds
          transcluded := (references.map node).zip referenceIds
          named := a₂.firstByKey childIds [] })
      (a.alloc v).1
      { v with
        children := childIds
        transcluded := (references.map node).zip referenceIds
        named := a₂.firstByKey childIds [] } := by
  generalize hid : (a.alloc v).1 = id at hs hs' ⊢
  have hid0 : (a.alloc v).2.get? id = some v := hid ▸ get?_alloc_self ha v
  have hlen : (children.map node).length = childIds.length := hs.length_eq
  have hlen' : (references.map node).length = referenceIds.length := hs'.length_eq
  have hall := hg.trans hg'
  have hother : ∀ c ∈ childIds ++ referenceIds, c ≠ id := by
    rintro c hc rfl
    rw [hall.tops_new c hc] at hid0
    cases hid0
  refine ⟨?_, ?_, ?_, ?_, ?_, by simp [hv]⟩
  · rw [ScopeRecord.owned, List.map_snd_zip (Nat.le_of_eq hlen'.symm)]
    exact hall.tops_nodup
  · intro c hc
    have hmem : c ∈ ((children.map node).zip childIds).map Prod.snd := by
      rw [List.map_snd_zip (Nat.le_of_eq hlen.symm)]
      exact hc
    obtain ⟨e, he, rfl⟩ := List.mem_map.mp hmem
    obtain ⟨r, hr, hp, ht, -⟩ := (List.forall₂_iff_zip.mp hs).2 he
    refine ⟨r, ?_, hp, ht⟩
    rw [get?_modify, if_neg (hother _ (List.mem_append_left _ hc))]
    exact hg'.kept _ r hr
  · intro e he
    obtain ⟨r, hr, hp, ht, hn⟩ := (List.forall₂_iff_zip.mp hs').2 he
    refine ⟨r, ?_, hp, ht, hn⟩
    rw [get?_modify, if_neg (hother _ (List.mem_append_right _ (List.of_mem_zip he).2))]
    exact hr
  · rw [List.map_fst_zip (Nat.le_of_eq hlen')]
    exact hkeys
  · refine firstByKey_congr ?_ []
    intro c hc
    simp only [key?, get?_modify, if_neg (hother c (List.mem_append_left _ hc))]

open Arena in
mutual

/-- Planting a blueprint lets the arena grow by one scope at the top, which stands where the
blueprint was to be planted. -/
theorem plant_grown {a : Arena ScopeRecord} (ha : a.Sound) (parent : Option ScopeId)
    (transclusion : Bool) : (b : Blueprint) → b.Keyed →
      Grown a (plant a parent transclusion b).2 [(plant a parent transclusion b).1] ∧
        Stands (plant a parent transclusion b).2 (plant a parent transclusion b).1 parent
          transclusion b.node
  | placeholder n, _ => by
    have hstands := get?_alloc_self ha ((placeholder n).record parent transclusion)
    refine ⟨?_, _, hstands, rfl, rfl, rfl⟩
    have hg := Grown.under ha (v := (placeholder n).record parent transclusion)
      (f := fun v => v) rfl (Grown.refl (ha.alloc _)) rfl rfl
      (linked_of_owned_eq_nil rfl rfl rfl rfl)
    rw [modify_self] at hg
    exact hg
  | scope n bullet children references, hb => by
    obtain ⟨hkeys, hchildren, hreferences⟩ := hb
    let v := (scope n bullet children references).record parent transclusion
    let id := (a.alloc v).1
    let childIds := (plantAll (a.alloc v).2 id false children).1
    let a₁ := (plantAll (a.alloc v).2 id false children).2
    let referenceIds := (plantAll a₁ id true references).1
    let a₂ := (plantAll a₁ id true references).2
    obtain ⟨hg, hs⟩ := plantAll_grown (ha.alloc v) id false children hchildren
    obtain ⟨hg', hs'⟩ := plantAll_grown hg.sound id true references hreferences
    have hunder := planted_linked ha rfl hkeys hg hs hg' hs'
    have hown := List.map_snd_zip (Nat.le_of_eq hs'.length_eq.symm)
    refine ⟨Grown.under ha rfl (hg.trans hg') ?_ rfl hunder, ?_⟩
    · exact congrArg (_ ++ ·) hown
    · have hself := (hg.trans hg').kept id v (get?_alloc_self ha v)
      have hstands := get?_modify_of_some hself fun r =>
        { r with
          children := childIds
          transcluded := (references.map node).zip referenceIds
          named := a₂.firstByKey childIds [] }
      exact ⟨_, hstands, rfl, rfl, rfl⟩

/-- Planting blueprints side by side lets the arena grow by one scope for each of them. -/
theorem plantAll_grown {a : Arena ScopeRecord} (ha : a.Sound) (owner : ScopeId)
    (transclusion : Bool) : (bs : List Blueprint) → AllKeyed bs →
      Grown a (plantAll a owner transclusion bs).2 (plantAll a owner transclusion bs).1 ∧
        List.Forall₂ (fun n id => Stands (plantAll a owner transclusion bs).2 id (some owner)
          transclusion n) (bs.map node) (plantAll a owner transclusion bs).1
  | [], _ => ⟨Grown.refl ha, List.Forall₂.nil⟩
  | b :: rest, hb => by
    obtain ⟨hg, hs⟩ := plant_grown ha (some owner) transclusion b hb.1
    obtain ⟨hg', hs'⟩ := plantAll_grown hg.sound owner transclusion rest hb.2
    refine ⟨hg.trans hg', List.Forall₂.cons ?_ hs'⟩
    obtain ⟨r, hr, hrest⟩ := hs
    exact ⟨r, hg'.kept _ r hr, hrest⟩

end

end Blueprint

theorem Document.node_unfoldWithin (d : Document) (fuel : Nat) (path : List NodeId) (id : NodeId) :
    (d.unfoldWithin fuel path id).node = id := by
  cases fuel with
  | zero => rfl
  | succ fuel =>
    rw [unfoldWithin]
    split
    · rfl
    · split <;> rfl

theorem Document.node_unfold (d : Document) (path : List NodeId) (id : NodeId) :
    (d.unfold path id).node = id :=
  d.node_unfoldWithin _ path id

theorem Document.keyed_unfoldWithin (d : Document) (fuel : Nat) (path : List NodeId) (id : NodeId) :
    (d.unfoldWithin fuel path id).Keyed := by
  induction fuel generalizing path id with
  | zero => trivial
  | succ fuel ih =>
    rw [unfoldWithin]
    split
    · trivial
    · split
      · trivial
      · refine ⟨?_, Blueprint.allKeyed_iff.mpr ?_, Blueprint.allKeyed_iff.mpr ?_⟩
        · simp [Function.comp_def, node_unfoldWithin]
        · simpa using fun c _ => ih (id :: path) c
        · simpa using fun c _ => ih (id :: path) c

theorem Document.keyed_unfold (d : Document) (path : List NodeId) (id : NodeId) :
    (d.unfold path id).Keyed :=
  d.keyed_unfoldWithin _ path id

/-! ## Trees of blueprints -/

namespace ScopeTree

/-- The tree of a blueprint. -/
def planted (b : Blueprint) : ScopeTree :=
  ⟨(b.plant .empty none false).2, (b.plant .empty none false).1⟩

theorem build_eq {d : Document} {b : Blueprint} (h : d.unfold [] d.root = b) :
    build d = planted b := by
  rw [build, h]
  rfl

end ScopeTree

end FormulaOutline
