import FormulaOutline.Proofs.Pattern.Applying
import FormulaOutline.Proofs.Pattern.Embedding

/-!
# Trees of larger documents

When a document gets new nodes, the natural scopes of its tree are those of the tree of the larger
document that do not stand for new nodes.

* `ScopeTree.image`: the natural scope of another tree that stands for the same node.
* `image_spec`, `exists_preimage`: each old node has a natural scope in both trees.
* `embeds_of_grows`: the tree of a document is part of the tree of a larger one.
* `beside_of_placed`, `placed_of_beside`: places in the tree are places in the document.
-/

namespace FormulaOutline

open Formula Document ScopeTree

namespace ScopeTree

/-- The natural scope of another tree that has the node of a scope. -/
def image (t t' : ScopeTree) (x : ScopeId) : ScopeId :=
  ((t'.below false t'.root).find? fun y => t'.node? y == t.node? x).getD x

/-- Whether a scope has none of the given nodes. -/
def avoids (t : ScopeTree) (nodes : List NodeId) (x : ScopeId) : Bool :=
  (t.node? x).any (· ∉ nodes)

variable {t t' : ScopeTree} {d d' : Document} {added : List NodeId} {x y : ScopeId} {n : NodeId}

/-! ## Scopes of old nodes -/

theorem eq_of_map_eq {α β : Type} {f : α → β} {P : α → Prop}
    (hf : ∀ a b, P a → P b → f a = f b → a = b) {l l' : List α} (hl : ∀ a ∈ l, P a)
    (hl' : ∀ a ∈ l', P a) (h : l.map f = l'.map f) : l = l' := by
  induction l generalizing l' with
  | nil => simpa using h.symm
  | cons a l ih =>
    obtain ⟨b, rest, rfl, hb, hRest⟩ := List.map_eq_cons_iff.mp h.symm
    rw [List.forall_mem_cons] at hl hl'
    rw [hf a b hl.1 hl'.1 hb.symm, ih hl.2 hl'.2 hRest.symm]

section Grown

variable (h : t.Mirrors d) (h' : t'.Mirrors d') (hGrows : d.Grows d' added)
include h h' hGrows

theorem exists_image (hx : t.Natural x) : ∃ y, t'.Natural y ∧ t'.node? y = t.node? x := by
  induction hx with
  | refl => exact ⟨t'.root, .refl, by rw [h.root, h'.root, hGrows.root]⟩
  | @tail p c hp hc ih =>
    obtain ⟨q, hq, hNode⟩ := ih
    obtain ⟨n, hn⟩ := h.node_of_natural hp
    obtain ⟨k, hk⟩ := h.node_of_natural (Natural.child hp hc)
    have hChild := h.hasChild_of_mem hp hn hc hk
    obtain ⟨m, hm, hMem⟩ := (hGrows.hasChild_iff (hGrows.child_not_added hChild)).mpr hChild
    have hMap := h'.map_children hq (hNode.trans hn) hm
    have hSome : some k ∈ (t'.children q).map t'.node? := hMap ▸ List.mem_map_of_mem hMem
    obtain ⟨y, hy, hEq⟩ := List.mem_map.mp hSome
    exact ⟨y, hq.child hy, hEq.trans hk.symm⟩

theorem image_spec (hx : t.Natural x) : t'.Natural (t.image t' x) ∧
    t'.node? (t.image t' x) = t.node? x := by
  obtain ⟨y, hy, hNode⟩ := exists_image h h' hGrows hx
  rw [image]
  cases hFind : (t'.below false t'.root).find? fun y => t'.node? y == t.node? x with
  | none =>
    rw [List.find?_eq_none] at hFind
    exact absurd (beq_iff_eq.mpr hNode) (hFind y (h'.rooted.mem_below_iff.mpr hy))
  | some z =>
    have hFound := List.find?_some hFind
    exact ⟨h'.rooted.mem_below_iff.mp (List.mem_of_find?_eq_some hFind), by simpa using hFound⟩

omit h' in
/-- A natural scope of the first tree has an old node. -/
theorem not_added_of_natural (hRoot : d.root ∉ added) (hx : t.Natural x) (hn : t.node? x = some n) :
    n ∉ added := by
  cases hx with
  | refl =>
    obtain rfl := Option.some.inj (h.root.symm.trans hn)
    exact hRoot
  | tail hp hc =>
    obtain ⟨m, hm⟩ := h.node_of_natural hp
    exact hGrows.child_not_added (h.hasChild_of_mem hp hm hc hn)

theorem exists_preimage (hy : t'.Natural y) (hOld : t'.avoids added y = true) :
    ∃ x, t.Natural x ∧ t.node? x = t'.node? y := by
  induction hy with
  | refl => exact ⟨t.root, .refl, by rw [h.root, h'.root, hGrows.root]⟩
  | @tail q c hq hc ih =>
    obtain ⟨m, hm⟩ := h'.node_of_natural hq
    obtain ⟨k, hk⟩ := h'.node_of_natural (Natural.child hq hc)
    have hk' : k ∉ added := by simpa [avoids, hk] using hOld
    have hChild := h'.hasChild_of_mem hq hm hc hk
    have hm' : m ∉ added := fun hMem => hk' (hGrows.below m hMem k hChild)
    obtain ⟨p, hp, hNode⟩ := ih (by simpa [avoids, hm] using hm')
    obtain ⟨n, hn, hMem⟩ := (hGrows.hasChild_iff hk').mp hChild
    have hMap := h.map_children hp (hNode.trans hm) hn
    have hSome : some k ∈ (t.children p).map t.node? := hMap ▸ List.mem_map_of_mem hMem
    obtain ⟨x, hx, hEq⟩ := List.mem_map.mp hSome
    exact ⟨x, hp.child hx, hEq.trans hk.symm⟩

/-! ## The embedding -/

/-- The natural scopes of an old node say the same in both trees, apart from their values and from
the scopes of new nodes. -/
theorem reads_of_grows (hRoot : d.root ∉ added) (hx : t.Natural x) (hy : t'.Natural y)
    (hxy : t'.node? y = t.node? x) :
    t'.isPlaceholder y = t.isPlaceholder x ∧
      (t'.record? y).map ScopeRecord.bullet = (t.record? x).map ScopeRecord.bullet ∧
      ((t'.children y).filter (t'.avoids added)).map t'.node? = (t.children x).map t.node? := by
  obtain ⟨n, hn⟩ := h.node_of_natural hx
  have hOld := not_added_of_natural h hGrows hRoot hx hn
  have hn' := hxy.trans hn
  rcases h.reads hx hn with ⟨hNone, hPlaceholder, hBullet, hChildren⟩ |
    ⟨m, hm, hPlaceholder, hBullet, hChildren⟩
  · have hNone' : d'.node? n = none := by
      have hSame := hGrows.old n hOld
      rw [hNone] at hSame
      exact Option.map_eq_none_iff.mp hSame
    rcases h'.reads hy hn' with ⟨-, hPlaceholder', hBullet', hChildren'⟩ | ⟨m', hm', -⟩
    · rw [hPlaceholder, hPlaceholder', hBullet, hBullet', hChildren, hChildren']
      exact ⟨rfl, rfl, rfl⟩
    · rw [hNone'] at hm'
      cases hm'
  · obtain ⟨m', hm', hValue, hFilter⟩ := hGrows.node?_old hm
    rcases h'.reads hy hn' with ⟨hNone', -⟩ | ⟨m'', hm'', hPlaceholder', hBullet', hChildren'⟩
    · rw [hm'] at hNone'
      cases hNone'
    · obtain rfl := Option.some.inj (hm'.symm.trans hm'')
      refine ⟨hPlaceholder'.trans hPlaceholder.symm, by rw [hBullet, hBullet', hValue], ?_⟩
      have hAvoids : (t'.children y).filter (t'.avoids added) =
          (t'.children y).filter ((fun o : Option NodeId => o.any (· ∉ added)) ∘ t'.node?) := rfl
      rw [hAvoids, ← List.filter_map, hChildren', hChildren, ← hFilter, List.filter_map]
      rfl

/-- The tree of a document is part of the tree of a larger one, if the values of old nodes keep their
types. -/
theorem embeds_of_grows (hd : d.Tidy) (hRoot : d.root ∉ added)
    (hTypes : ∀ x y, t.Natural x → t'.Natural y → t'.node? y = t.node? x →
      t'.valueType? y = t.valueType? x) : Embeds t t' (t.image t') (t'.avoids added) := by
  have hImage := fun x (hx : t.Natural x) => image_spec h h' hGrows hx
  have hUnique := fun x y (hx : t'.Natural x) (hy : t'.Natural y) hEq =>
    h'.natural_unique hGrows.tidy.forest hx hy hEq
  have hReads := fun x (hx : t.Natural x) => reads_of_grows h h' hGrows hRoot hx (hImage x hx).1
    (hImage x hx).2
  refine ⟨h.rooted, h'.rooted, ?_, ?_, ?_, ?_, fun x hx => (hImage x hx).2,
    fun x hx => (hReads x hx).1, fun x hx => (hReads x hx).2.1, ?_⟩
  · have hSpec := hImage t.root .refl
    exact hUnique _ _ hSpec.1 .refl (by rw [hSpec.2, h.root, h'.root, hGrows.root])
  · intro x y hx hy hEq
    refine h.natural_unique hd.forest hx hy ?_
    rw [← (hImage x hx).2, hEq, (hImage y hy).2]
  · intro x hx
    refine eq_of_map_eq (P := t'.Natural) hUnique ?_ ?_ ?_
    · exact fun y hy => (hImage x hx).1.child (List.mem_filter.mp hy).1
    · intro y hy
      obtain ⟨c, hc, rfl⟩ := List.mem_map.mp hy
      exact (hImage c (hx.child hc)).1
    · rw [(hReads x hx).2.2, List.map_map]
      exact List.map_congr_left fun c hc => (hImage c (hx.child hc)).2.symm
  · intro y hy hOld
    obtain ⟨x, hx, hNode⟩ := exists_preimage h h' hGrows hy hOld
    exact ⟨x, hx, hUnique _ _ (hImage x hx).1 hy ((hImage x hx).2.trans hNode)⟩
  · exact fun x hx => hTypes x _ hx (hImage x hx).1 (hImage x hx).2

end Grown

/-! ## Places -/

section Places

variable {p : ScopeId} {a f b : NodeId} {placement : Placement}

theorem infix_of_map_some {α : Type} {l l' : List α} (h : l.map some <:+: l'.map some) :
    l <:+: l' := by
  have hInfix := h.filterMap id
  simpa using hInfix

/-- Scopes that are placed beside each other have nodes that are. -/
theorem beside_of_placed (h : t.Mirrors d) (hx : t.Natural x) (hy : t.Natural y)
    (hf : t.node? x = some f) (ha : t.node? y = some a) (hPlaced : t.Placed y x placement) :
    d.Beside a f placement := by
  have hSiblings : ∀ {u v : ScopeId} {m n : NodeId}, t.Natural u → t.node? u = some m →
      t.node? v = some n → (∃ p, [u, v] <:+: t.children p) →
      ∃ q k, d.node? q = some k ∧ [m, n] <:+: k.children := by
    rintro u v m n hu hm hn ⟨p, hInfix⟩
    have hMem : u ∈ t.children p := hInfix.subset (by simp)
    obtain ⟨hp, -⟩ := h.rooted.parent_of_natural hu (h.rooted.parent?_of_mem_children hMem)
    obtain ⟨q, hq⟩ := h.node_of_natural hp
    obtain ⟨k, hk, -⟩ := h.hasChild_of_mem hp hq hMem hm
    refine ⟨q, k, hk, infix_of_map_some ?_⟩
    have hMap := hInfix.map t.node?
    rwa [h.map_children hp hq hk, List.map_cons, List.map_cons, hm, hn] at hMap
  cases placement with
  | child => exact h.hasChild_of_mem hy ha hPlaced hf
  | below => exact hSiblings hy ha hf hPlaced
  | above => exact hSiblings hx hf ha hPlaced

/-- Siblings whose nodes are neighbours in the document are neighbours. -/
theorem infix_of_nodes (h : t.Mirrors d) (hd : d.IsForest) (hp : t.Natural p)
    (hx : x ∈ t.children p) (hy : y ∈ t.children p) (ha : t.node? x = some a)
    (hb : t.node? y = some b) (hInfix : ∃ q m, d.node? q = some m ∧ [a, b] <:+: m.children) :
    [x, y] <:+: t.children p := by
  obtain ⟨q, hq⟩ := h.node_of_natural hp
  obtain ⟨q', m, hm, hInfix⟩ := hInfix
  obtain rfl := hd.parent_unique q' q a ⟨m, hm, hInfix.subset (by simp)⟩
    (h.hasChild_of_mem hp hq hx ha)
  have hMap : [some a, some b] <:+: (t.children p).map t.node? := by
    rw [h.map_children hp hq hm]
    exact hInfix.map some
  obtain ⟨x', y', hFound, hx', hy'⟩ := exists_infix_of_map hMap
  have hNatural : ∀ z ∈ [x', y'], t.Natural z := fun z hz => hp.child (hFound.subset hz)
  rwa [← h.natural_unique hd (hNatural x' (by simp)) (hp.child hx) (hx'.trans ha.symm),
    ← h.natural_unique hd (hNatural y' (by simp)) (hp.child hy) (hy'.trans hb.symm)]

/-- A formula is still placed beside its anchor if that is so in the larger document. -/
theorem placed_of_beside {e : ScopeId → ScopeId} {old : ScopeId → Bool} (h' : t'.Mirrors d')
    (hd' : d'.IsForest) (hEmbeds : Embeds t t' e old) (hx : t.Natural x) (hy : t.Natural y)
    (hf : t.node? x = some f) (ha : t.node? y = some a) (hPlaced : t.Placed y x placement)
    (hBeside : d'.Beside a f placement) : t'.Placed (e y) (e x) placement := by
  have hNode : ∀ {u m}, t.Natural u → t.node? u = some m → t'.node? (e u) = some m :=
    fun hu hm => (hEmbeds.node? _ hu).trans hm
  have hSiblings : ∀ {u v : ScopeId} {m n : NodeId}, t.Natural u → t.Natural v →
      t.node? u = some m → t.node? v = some n → (∃ p, [u, v] <:+: t.children p) →
      (∃ q k, d'.node? q = some k ∧ [m, n] <:+: k.children) →
      ∃ p', [e u, e v] <:+: t'.children p' := by
    rintro u v m n hu hv hm hn ⟨p, hInfix⟩ hNodes
    have hMem : ∀ w ∈ [u, v], w ∈ t.children p := fun w hw => hInfix.subset hw
    obtain ⟨hp, -⟩ := hEmbeds.rooted.parent_of_natural hu
      (hEmbeds.rooted.parent?_of_mem_children (hMem u (by simp)))
    exact ⟨e p, infix_of_nodes h' hd' (hEmbeds.natural hp) (hEmbeds.mem_children hp (hMem u (by simp)))
      (hEmbeds.mem_children hp (hMem v (by simp))) (hNode hu hm) (hNode hv hn) hNodes⟩
  cases placement with
  | child => exact hEmbeds.mem_children hy hPlaced
  | below => exact hSiblings hy hx ha hf hPlaced hBeside
  | above => exact hSiblings hx hy hf ha hPlaced hBeside

end Places

end ScopeTree

end FormulaOutline
