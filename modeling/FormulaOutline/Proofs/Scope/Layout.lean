import FormulaOutline.Proofs.Scope.WellFormed

/-!
# The order of the scopes of a built tree

A tree that is built from a document fills the slots of its arena in the order of a walk over the
blueprint: a scope, then its children with all below them, then its references.

* `Blueprint.stems`: the scopes of a blueprint in this order, each as the nodes and kinds on the way
  up from it.
* `plant_laid`: planting lays the scopes of a blueprint out in this order.
* `upward_eq_iff`: the way up from a scope of a built tree is the stem of its slot.
* `scopeForNode?_eq_find`: the scope of a node is the first one that is not flagged.
-/

namespace FormulaOutline

/-- The nodes on the way up from a scope, itself first, each with the flag of its scope. -/
abbrev Stem := List (NodeId × Bool)

namespace Blueprint

mutual

/-- The stems of the scopes of a blueprint below `above`, in the order in which they are made. -/
def stems (above : Stem) (transclusion : Bool) : Blueprint → List Stem
  | placeholder n => [(n, transclusion) :: above]
  | scope n _ children references =>
      ((n, transclusion) :: above) ::
        (stemsAll ((n, transclusion) :: above) false children ++
          stemsAll ((n, transclusion) :: above) true references)

def stemsAll (above : Stem) (transclusion : Bool) : List Blueprint → List Stem
  | [] => []
  | b :: rest => stems above transclusion b ++ stemsAll above transclusion rest

end

end Blueprint

/-! ## Arenas without vacant slots -/

namespace Arena

/-- No slot has ever been freed. -/
structure Packed (a : Arena ScopeRecord) : Prop where
  sound : a.Sound
  vacant : a.vacant = []
  generation : ∀ i, a.generation i = 0

variable {a a' a'' : Arena ScopeRecord} {x : ScopeId} {r : ScopeRecord}

theorem packed_empty : (empty : Arena ScopeRecord).Packed := ⟨sound_empty, rfl, fun _ => rfl⟩

theorem vacant_modify (a : Arena ScopeRecord) (id : ScopeId) (f : ScopeRecord → ScopeRecord) :
    (a.modify id f).vacant = a.vacant := by
  unfold modify
  split <;> rfl

theorem size_modify (a : Arena ScopeRecord) (id : ScopeId) (f : ScopeRecord → ScopeRecord) :
    (a.modify id f).slots.size = a.slots.size := by
  unfold modify
  split
  · rfl
  · exact Array.size_setIfInBounds

theorem Packed.modify (ha : a.Packed) (id : ScopeId) (f : ScopeRecord → ScopeRecord) :
    (a.modify id f).Packed where
  sound := ha.sound.modify id f
  vacant := (vacant_modify a id f).trans ha.vacant
  generation := fun i => (congrFun (generation_modify a id f) i).trans (ha.generation i)

/-- Without vacant slots a value gets a new one. -/
theorem Packed.alloc_eq (ha : a.Packed) (r : ScopeRecord) :
    a.alloc r = (⟨a.slots.size, 0⟩, { a with slots := a.slots.push ⟨0, some r⟩ }) := by
  rw [alloc, ha.vacant]

theorem Packed.alloc (ha : a.Packed) (r : ScopeRecord) : (a.alloc r).2.Packed where
  sound := ha.sound.alloc r
  vacant := by
    rw [ha.alloc_eq]
    exact ha.vacant
  generation := fun i => (congrFun (generation_alloc ha.sound r) i).trans (ha.generation i)

theorem Packed.size_alloc (ha : a.Packed) (r : ScopeRecord) :
    (a.alloc r).2.slots.size = a.slots.size + 1 := by
  rw [ha.alloc_eq]
  exact Array.size_push _

theorem Packed.generation_eq (ha : a.Packed) (hx : a.get? x = some r) : x.generation = 0 := by
  have hgen := generation_of_get? hx
  rw [ha.generation] at hgen
  exact UInt32.toNat_inj.mp hgen.symm

/-- Every slot holds a scope. -/
theorem Packed.get?_of_lt (ha : a.Packed) {i : Nat} (hi : i < a.slots.size) :
    ∃ r, a.get? ⟨i, 0⟩ = some r := by
  have hslot := Array.getElem?_eq_getElem hi
  rcases hs : a.slots[i] with ⟨g, v⟩
  rw [hs] at hslot
  cases v with
  | none =>
    have hmem := (ha.sound.mem_vacant i).mpr ⟨g, hslot⟩
    rw [ha.vacant] at hmem
    cases hmem
  | some r =>
    have hget : a.get? ⟨i, g⟩ = some r := get?_eq_some_iff.mpr hslot
    obtain rfl : g = 0 := ha.generation_eq hget
    exact ⟨r, hget⟩

/-! ## The way up from a scope -/

/-- The way up from a scope has the given nodes and kinds. -/
inductive Climbs (a : Arena ScopeRecord) : ScopeId → Stem → Prop
  | top {x : ScopeId} {r : ScopeRecord} : a.get? x = some r → r.parent = none →
      Climbs a x [(r.node, r.transclusion)]
  | step {x p : ScopeId} {r : ScopeRecord} {stem : Stem} : a.get? x = some r →
      r.parent = some p → Climbs a p stem → Climbs a x ((r.node, r.transclusion) :: stem)

theorem Climbs.head {stem : Stem} (h : a.Climbs x stem) :
    ∃ r, a.get? x = some r ∧ stem.head? = some (r.node, r.transclusion) := by
  cases h with
  | top hx _ => exact ⟨_, hx, rfl⟩
  | step hx _ _ => exact ⟨_, hx, rfl⟩

theorem Climbs.unique {stem stem' : Stem} (h : a.Climbs x stem) (h' : a.Climbs x stem') :
    stem = stem' := by
  induction h generalizing stem' with
  | top hx hp =>
    cases h' with
    | top hx' _ =>
      obtain rfl := Option.some.inj (hx.symm.trans hx')
      rfl
    | step hx' hp' _ =>
      obtain rfl := Option.some.inj (hx.symm.trans hx')
      rw [hp] at hp'
      cases hp'
  | step hx hp _ ih =>
    cases h' with
    | top hx' hp' =>
      obtain rfl := Option.some.inj (hx.symm.trans hx')
      rw [hp] at hp'
      cases hp'
    | step hx' hp' hrest =>
      obtain rfl := Option.some.inj (hx.symm.trans hx')
      obtain rfl := Option.some.inj (hp.symm.trans hp')
      rw [ih hrest]

/-- The way up depends on the faces of records alone. -/
theorem Climbs.congr {stem : Stem} (h : a.Climbs x stem)
    (hface : ∀ x r, a.get? x = some r → ∃ r', a'.get? x = some r' ∧ r.face = r'.face) :
    a'.Climbs x stem := by
  induction h with
  | top hx hp =>
    obtain ⟨r', hx', hf⟩ := hface _ _ hx
    rw [ScopeRecord.node_of_face hf, ScopeRecord.transclusion_of_face hf]
    exact .top hx' (ScopeRecord.parent_of_face hf ▸ hp)
  | step hx hp _ ih =>
    obtain ⟨r', hx', hf⟩ := hface _ _ hx
    rw [ScopeRecord.node_of_face hf, ScopeRecord.transclusion_of_face hf]
    exact .step hx' (ScopeRecord.parent_of_face hf ▸ hp) ih

/-! ## Planting -/

/-- One arena is another one with scopes of the given stems in new slots, in their order. -/
structure Laid (a a' : Arena ScopeRecord) (stems : List Stem) : Prop where
  packed : a'.Packed
  size : a'.slots.size = a.slots.size + stems.length
  face : ∀ x r, a.get? x = some r → ∃ r', a'.get? x = some r' ∧ r.face = r'.face
  climbs : ∀ j stem, stems[j]? = some stem → a'.Climbs ⟨a.slots.size + j, 0⟩ stem

theorem Laid.refl (ha : a.Packed) : Laid a a [] where
  packed := ha
  size := rfl
  face := fun _ r hr => ⟨r, hr, rfl⟩
  climbs := by simp

theorem Laid.trans {stems stems' : List Stem} (h : Laid a a' stems) (h' : Laid a' a'' stems') :
    Laid a a'' (stems ++ stems') where
  packed := h'.packed
  size := by
    rw [h'.size, h.size, List.length_append, Nat.add_assoc]
  face := by
    intro x r hr
    obtain ⟨r', hr', hf⟩ := h.face x r hr
    obtain ⟨r'', hr'', hf'⟩ := h'.face x r' hr'
    exact ⟨r'', hr'', hf.trans hf'⟩
  climbs := by
    intro j stem hj
    by_cases hlt : j < stems.length
    · rw [List.getElem?_append_left hlt] at hj
      exact (h.climbs j stem hj).congr h'.face
    · rw [List.getElem?_append_right (Nat.le_of_not_lt hlt)] at hj
      have hclimbs := h'.climbs _ stem hj
      rwa [h.size, Nat.add_assoc, Nat.add_sub_cancel' (Nat.le_of_not_lt hlt)] at hclimbs

/-- The scope above a new scope is there, and the way up from it is known. -/
def HangsFrom (a : Arena ScopeRecord) (above : Stem) : Option ScopeId → Prop
  | none => above = []
  | some p => a.Climbs p above

theorem laid_alloc (ha : a.Packed) {v : ScopeRecord} {above : Stem}
    (hup : a.HangsFrom above v.parent) :
    Laid a (a.alloc v).2 [(v.node, v.transclusion) :: above] := by
  have hid : (a.alloc v).1 = ⟨a.slots.size, 0⟩ := by rw [ha.alloc_eq]
  have hface : ∀ x r, a.get? x = some r → ∃ r', (a.alloc v).2.get? x = some r' ∧ r.face = r'.face :=
    fun x r hx => ⟨r, get?_alloc_of_some ha.sound hx v, rfl⟩
  refine ⟨ha.alloc v, ha.size_alloc v, hface, ?_⟩
  intro j stem hj
  cases j with
  | succ j => simp at hj
  | zero =>
    obtain rfl : (v.node, v.transclusion) :: above = stem := by simpa using hj
    have hself := get?_alloc_self ha.sound v
    rw [hid] at hself
    cases hp : v.parent with
    | none =>
      rw [hp] at hup
      rw [show above = [] from hup]
      exact .top hself hp
    | some p =>
      rw [hp] at hup
      exact .step hself hp (Climbs.congr hup hface)

theorem Laid.modify {stems : List Stem} (h : Laid a a' stems) (id : ScopeId)
    {f : ScopeRecord → ScopeRecord} (hf : ∀ r, (f r).face = r.face) :
    Laid a (a'.modify id f) stems := by
  have hface : ∀ x r, a'.get? x = some r →
      ∃ r', (a'.modify id f).get? x = some r' ∧ r.face = r'.face := by
    intro x r hx
    rw [get?_modify]
    split
    · rename_i hxid
      subst hxid
      exact ⟨f r, by rw [hx, Option.map_some], (hf r).symm⟩
    · exact ⟨r, hx, rfl⟩
  refine ⟨h.packed.modify id f, (size_modify a' id f).trans h.size, ?_, ?_⟩
  · intro x r hr
    obtain ⟨r', hr', hf'⟩ := h.face x r hr
    obtain ⟨r'', hr'', hf''⟩ := hface x r' hr'
    exact ⟨r'', hr'', hf'.trans hf''⟩
  · exact fun j stem hj => (h.climbs j stem hj).congr hface

end Arena

namespace Blueprint

open Arena

mutual

/-- Planting lays the scopes of a blueprint out in the order of its stems, the first one on top. -/
theorem plant_laid {a : Arena ScopeRecord} (ha : a.Packed) {above : Stem}
    (parent : Option ScopeId) (hup : a.HangsFrom above parent) (transclusion : Bool) :
    (b : Blueprint) →
    (b.plant a parent transclusion).1 = ⟨a.slots.size, 0⟩ ∧
      Laid a (b.plant a parent transclusion).2 (b.stems above transclusion)
  | placeholder n => by
    rw [plant, stems]
    exact ⟨by rw [ha.alloc_eq], laid_alloc ha hup⟩
  | scope n bullet children references => by
    have htop := laid_alloc (v := (scope n bullet children references).record parent transclusion)
      ha hup
    have hid : (a.alloc ((scope n bullet children references).record parent transclusion)).1 =
        ⟨a.slots.size, 0⟩ := by rw [ha.alloc_eq]
    rw [plant, stems]
    simp only
    generalize (a.alloc ((scope n bullet children references).record parent transclusion)).1 = id
      at hid
    generalize (a.alloc ((scope n bullet children references).record parent transclusion)).2 = a₁
      at htop
    subst hid
    have hclimbs : a₁.Climbs ⟨a.slots.size, 0⟩ ((n, transclusion) :: above) := htop.climbs 0 _ rfl
    have hchildren := plantAll_laid htop.packed hclimbs false children
    have hclimbs' := hclimbs.congr hchildren.face
    have hreferences := plantAll_laid hchildren.packed hclimbs' true references
    exact ⟨rfl, (htop.trans (hchildren.trans hreferences)).modify _ fun _ => rfl⟩

theorem plantAll_laid {a : Arena ScopeRecord} (ha : a.Packed) {above : Stem} {owner : ScopeId}
    (hup : a.Climbs owner above) (transclusion : Bool) : (bs : List Blueprint) →
    Laid a (plantAll a owner transclusion bs).2 (stemsAll above transclusion bs)
  | [] => by
    rw [plantAll, stemsAll]
    exact .refl ha
  | b :: rest => by
    rw [plantAll, stemsAll]
    simp only
    obtain ⟨-, hb⟩ := plant_laid ha (some owner) hup transclusion b
    exact hb.trans (plantAll_laid hb.packed (hup.congr hb.face) transclusion rest)

end

end Blueprint

/-! ## Entries -/

/-- Searching two lists whose members correspond finds members that correspond. -/
theorem find?_of_forall₂ {α β : Type} {R : α → β → Prop} {p : α → Bool} {q : β → Bool}
    {l : List α} {l' : List β} (h : List.Forall₂ R l l') (hpq : ∀ a b, R a b → p a = q b) :
    (l.find? p = none ∧ l'.find? q = none) ∨
      ∃ a b, l.find? p = some a ∧ l'.find? q = some b ∧ R a b := by
  induction h with
  | nil => exact Or.inl ⟨rfl, rfl⟩
  | @cons a b l l' hab _ ih =>
    rw [List.find?_cons, List.find?_cons, hpq a b hab]
    cases q b with
    | true => exact Or.inr ⟨a, b, rfl, rfl, hab⟩
    | false => exact ih

/-- Where the members of one list differ, only one member of the other corresponds to each. -/
theorem eq_of_forall₂ {α β : Type} {R : α → β → Prop} {l : List α} {l' : List β}
    (h : List.Forall₂ R l l') (hl' : l'.Nodup) (huniq : ∀ a b b', R a b → R a b' → b = b')
    {a a' : α} {b : β} (ha : a ∈ l) (ha' : a' ∈ l) (hab : R a b) (hab' : R a' b) : a = a' := by
  obtain ⟨hlen, hget⟩ := List.forall₂_iff_get.mp h
  obtain ⟨i, hi, rfl⟩ := List.getElem_of_mem ha
  obtain ⟨j, hj, rfl⟩ := List.getElem_of_mem ha'
  have hb := huniq _ _ _ (hget i hi (hlen ▸ hi)) hab
  have hb' := huniq _ _ _ (hget j hj (hlen ▸ hj)) hab'
  have hij : i = j := by
    have hinj := List.nodup_iff_injective_get.mp hl'
    exact congrArg Fin.val (@hinj ⟨i, hlen ▸ hi⟩ ⟨j, hlen ▸ hj⟩ (hb.trans hb'.symm))
  subst hij
  rfl

namespace Arena

variable {a : Arena ScopeRecord} {x : ScopeId} {r : ScopeRecord}

/-- The ids in use are those of all slots, in their order. -/
theorem Packed.entries_eq (ha : a.Packed) :
    a.entries.map Prod.fst = (List.range a.slots.size).map fun i => ⟨i, 0⟩ := by
  have hfull : a.slots.toList.zipIdx.filter (·.1.value.isSome) = a.slots.toList.zipIdx := by
    rw [List.filter_eq_self]
    rintro ⟨s, i⟩ hs
    rw [List.mem_zipIdx_iff_getElem?, Array.getElem?_toList] at hs
    obtain ⟨r, hr⟩ := ha.get?_of_lt (Array.getElem?_eq_some_iff.mp hs).1
    rw [get?_eq_some_iff, hs] at hr
    rw [Option.some.inj hr]
    rfl
  have hindex : a.entries.map (fun e => e.1.index) = List.range a.slots.size := by
    rw [map_index_entries, hfull, List.zipIdx_map_snd, List.range_eq_range', Array.length_toList]
  rw [← hindex, List.map_map]
  refine List.map_congr_left ?_
  rintro ⟨x, r⟩ hmem
  have hgen := ha.generation_eq (mem_entries_iff.mp hmem)
  exact (congrArg (ScopeId.mk x.index) hgen)

theorem getElem?_entries (ha : a.Packed) {i : Nat} {e : ScopeId × ScopeRecord}
    (he : a.entries[i]? = some e) : e.1 = ⟨i, 0⟩ ∧ a.get? e.1 = some e.2 := by
  have hmap := congrArg (·[i]?) ha.entries_eq
  simp only [List.getElem?_map, he, Option.map_some] at hmap
  obtain ⟨j, hj, hej⟩ := Option.map_eq_some_iff.mp hmap.symm
  obtain ⟨hlt, hij⟩ := List.getElem?_eq_some_iff.mp hj
  rw [List.getElem_range] at hij
  subst hij
  exact ⟨hej.symm, mem_entries_iff.mp (List.mem_of_getElem? he)⟩

/-- The entries stand in the order in which their scopes were laid out. -/
theorem Laid.entries {stems : List Stem} (h : Laid .empty a stems) :
    List.Forall₂ (fun e stem => a.get? e.1 = some e.2 ∧ a.Climbs e.1 stem) a.entries stems := by
  have hsize : a.slots.size = stems.length := by simpa [empty] using h.size
  have hlen : a.entries.length = a.slots.size := by
    have := congrArg List.length h.packed.entries_eq
    simpa using this
  refine List.forall₂_iff_get.mpr ⟨hlen.trans hsize, ?_⟩
  intro i hi hi'
  obtain ⟨hid, hget⟩ := getElem?_entries h.packed (List.getElem?_eq_getElem hi)
  have hclimbs := h.climbs i _ (List.getElem?_eq_getElem hi')
  have hzero : (empty : Arena ScopeRecord).slots.size + i = i := Nat.zero_add i
  rw [hzero] at hclimbs
  exact ⟨hget, hid ▸ hclimbs⟩

end Arena

/-! ## Built trees -/

namespace ScopeTree

/-- The stems of the scopes of the tree of a document. -/
def stemsOf (d : Document) : List Stem := (d.unfold [] d.root).stems [] false

/-- The nodes and kinds of a scope and of those above it. -/
def stem (t : ScopeTree) (x : ScopeId) : Stem :=
  (t.upward x).map fun e => (e.2.node, e.2.transclusion)

theorem laid_build (d : Document) : Arena.Laid .empty (build d).arena (stemsOf d) :=
  (Blueprint.plant_laid Arena.packed_empty none rfl false (d.unfold [] d.root)).2

variable {t : ScopeTree} {x : ScopeId} {stem : Stem}

theorem upwardWithin_of_climbs {fuel : Nat} (h : t.arena.Climbs x stem)
    (hfuel : stem.length ≤ fuel) :
    (t.upwardWithin fuel x).map (fun e => (e.2.node, e.2.transclusion)) = stem := by
  induction h generalizing fuel with
  | @top x r hx hp =>
    cases fuel with
    | zero => simp at hfuel
    | succ fuel => simp [upwardWithin, show t.record? x = some r from hx, hp]
  | @step x p r stem hx hp _ ih =>
    cases fuel with
    | zero => simp at hfuel
    | succ fuel =>
      have hrest := ih (Nat.le_of_succ_le_succ hfuel)
      simp [upwardWithin, show t.record? x = some r from hx, hp, hrest]

theorem descends_of_climbs (h : t.Rooted) (hx : t.arena.Climbs x stem) :
    t.Descends t.root (stem.length - 1) x := by
  induction hx with
  | @top x r hx hp =>
    rcases h.owner x r hx with rfl | ⟨q, hq, -⟩
    · exact .here
    · rw [hp] at hq
      cases hq
  | @step x p r stem hx hp hup ih =>
    have hpos : 0 < stem.length := by
      cases hup <;> exact Nat.succ_pos _
    have hlen : ((r.node, r.transclusion) :: stem).length - 1 = stem.length - 1 + 1 := by
      rw [List.length_cons]
      omega
    rw [hlen]
    exact ih.step (h.owns_of_parent hx hp)

/-- The way up from a scope ends at the root before the fuel does. -/
theorem stem_eq (h : t.Rooted) (hx : t.arena.Climbs x stem) : t.stem x = stem := by
  refine upwardWithin_of_climbs hx ?_
  have := h.depth_lt (descends_of_climbs h hx)
  omega

/-! ## The scope of a node -/

theorem isTransclusion_of_mem {e : ScopeId × ScopeRecord} (he : e ∈ t.arena.entries) :
    t.isTransclusion e.1 = e.2.transclusion := by
  have hget : t.record? e.1 = some e.2 := Arena.mem_entries_iff.mp he
  rw [isTransclusion, hget, Option.map_some, Option.getD_some]

/-- The scopes of a node that are not flagged, in the order of their slots. -/
def plainScopes (t : ScopeTree) (n : NodeId) : List (ScopeId × ScopeRecord) :=
  t.arena.entries.filter fun e => !e.2.transclusion && e.2.node == n

theorem scopesForNode_eq (t : ScopeTree) (n : NodeId) : t.scopesForNode n =
    ((t.plainScopes n) ++ t.arena.entries.filter fun e => e.2.transclusion && e.2.node == n).map
      Prod.fst := by
  rw [scopesForNode, plainScopes, List.filter_filter, List.filter_filter]

/-- The scope of a node is the first one that is not flagged. -/
theorem scopeForNode?_eq_find (t : ScopeTree) (n : NodeId) : t.scopeForNode? n =
    (t.arena.entries.find? fun e => !e.2.transclusion && e.2.node == n).map Prod.fst := by
  have hplain : (t.plainScopes n).find? (fun e => !t.isTransclusion e.1) =
      (t.plainScopes n).head? := by
    rw [← List.head?_filter, List.filter_eq_self.mpr]
    intro e he
    obtain ⟨hmem, he⟩ := List.mem_filter.mp he
    rw [isTransclusion_of_mem hmem]
    exact (Bool.and_eq_true_iff.mp he).1
  have hflagged : (t.arena.entries.filter fun e => e.2.transclusion && e.2.node == n).find?
      (fun e => !t.isTransclusion e.1) = none := by
    rw [List.find?_eq_none]
    intro e he
    obtain ⟨hmem, he⟩ := List.mem_filter.mp he
    rw [isTransclusion_of_mem hmem, (Bool.and_eq_true_iff.mp he).1]
    simp
  rw [scopeForNode?, scopesForNode_eq, List.find?_map, List.find?_append]
  rw [show ((fun x => !t.isTransclusion x) ∘ Prod.fst : ScopeId × ScopeRecord → Bool) =
    fun e => !t.isTransclusion e.1 from rfl, hplain, hflagged, Option.or_none, plainScopes,
    List.head?_filter]

/-- The scope of a node, if it has one, is the first of its scopes. -/
theorem head?_scopesForNode {n : NodeId} (h : t.scopeForNode? n = some x) :
    (t.scopesForNode n).head? = some x := by
  rw [scopeForNode?_eq_find, ← List.head?_filter] at h
  rw [scopesForNode_eq, List.head?_map, List.head?_append]
  obtain ⟨e, he, rfl⟩ := Option.map_eq_some_iff.mp h
  rw [show (t.plainScopes n).head? = some e from he]
  rfl

end ScopeTree

end FormulaOutline
