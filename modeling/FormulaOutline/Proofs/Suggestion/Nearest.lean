import FormulaOutline.Document.Outline
import FormulaOutline.Proofs.Scope.Lookup
import FormulaOutline.Suggestion.Nearby

/-!
# The nearest sources of parameters

The search for parameters meets a node at several places and keeps the nearest one.

* `Near`: the scopes that the search comes to, with their distances.
* `Rooted.mem_visits_iff`: the three walks of the search come to these scopes and to no others.
* `Supplies`: a scope that the search comes to gives a typed value for its node.
* `Kept`: what has been kept of the parameters that came so far; `Kept.keepNearest` is one step.
* `Nearest`: what is said of the parameters that are collected, and `Rooted.nearest_parameters` that
  it holds of them.
* `reachable_parameters`: so it does in every tree that a session comes to.
-/

namespace FormulaOutline

/-- The depths to which the search follows references. The scope that is referred to is always looked
at, whatever the bound. -/
def SearchBounds.Follows (bounds : SearchBounds) (depth : Nat) : Prop :=
  depth ≤ max 1 bounds.maxSubtreeDepth

namespace ScopeTree

variable {t : ScopeTree} {bounds : SearchBounds} {x y p : ScopeId} {v : Visit}

/-! ## The scopes that the search comes to -/

/-- The scopes near a scope, and how far away they are. What is referred to above the scope is taken
only from the given depths, at which a scope that is referred to is at depth one. -/
inductive Near (t : ScopeTree) (bounds : SearchBounds) (depths : Nat → Prop) (x : ScopeId) :
    Visit → Prop
  | below {k : Nat} {y : ScopeId} (hBelow : t.Descends x k y) (hDepth : k ≤ bounds.maxSubtreeDepth) :
      Near t bounds depths x ⟨.self, k, y⟩
  | above {h : Nat} {a : ScopeId} (hAbove : t.Descends a (h + 1) x)
      (hBound : h + 1 ≤ bounds.maxAncestorDepth) : Near t bounds depths x ⟨.parent, h + 1, a⟩
  | referenced {h k : Nat} {a y : ScopeId} {e : NodeId × ScopeId} (hAbove : t.Descends a (h + 1) x)
      (hBound : h + 1 ≤ bounds.maxAncestorDepth) (hReference : e ∈ t.transcluded a)
      (hBelow : t.Descends e.2 k y) (hDepth : depths (k + 1)) :
      Near t bounds depths x ⟨.parent, h + 1 + (k + 1), y⟩
  | before {p s y : ScopeId} {i o k : Nat} (hx : (t.children p)[i + (o + 1)]? = some x)
      (hs : (t.children p)[i]? = some s) (hBound : o + 1 ≤ bounds.maxSiblingDistance)
      (hBelow : t.Descends s k y) (hDepth : k ≤ bounds.maxSubtreeDepth) :
      Near t bounds depths x ⟨.prev, o + 1 + k, y⟩
  | after {p s y : ScopeId} {i o k : Nat} (hx : (t.children p)[i]? = some x)
      (hs : (t.children p)[i + (o + 1)]? = some s) (hBound : o + 1 ≤ bounds.maxSiblingDistance)
      (hBelow : t.Descends s k y) (hDepth : k ≤ bounds.maxSubtreeDepth) :
      Near t bounds depths x ⟨.next, o + 1 + k, y⟩

theorem mem_levelsBelow_iff {levels k : Nat} :
    (y, k) ∈ t.levelsBelow levels x ↔ t.Descends x k y ∧ k ≤ levels := by
  induction levels generalizing x k with
  | zero =>
    rw [levelsBelow, List.mem_singleton, Prod.mk.injEq]
    constructor
    · rintro ⟨rfl, rfl⟩
      exact ⟨.here, Nat.le_refl 0⟩
    · rintro ⟨hDescends, hk⟩
      obtain rfl := Nat.le_zero.mp hk
      cases hDescends
      exact ⟨rfl, rfl⟩
  | succ levels ih =>
    have hOwned : ∀ c, c ∈ ((t.record? x).map ScopeRecord.owned).getD [] ↔ t.arena.Owns x c := by
      intro c
      rw [Arena.Owns, show t.arena.get? x = t.record? x from rfl]
      cases t.record? x <;> simp
    rw [levelsBelow, List.mem_cons, Prod.mk.injEq]
    simp only [List.mem_flatMap, List.mem_map, Prod.mk.injEq, Prod.exists, hOwned]
    constructor
    · rintro (⟨rfl, rfl⟩ | ⟨c, hc, y, k, hMem, rfl, rfl⟩)
      · exact ⟨.here, Nat.zero_le _⟩
      · obtain ⟨hDescends, hk⟩ := ih.mp hMem
        exact ⟨descends_succ_iff.mpr ⟨c, hc, hDescends⟩, Nat.succ_le_succ hk⟩
    · rintro ⟨hDescends, hk⟩
      cases k with
      | zero =>
        cases hDescends
        exact Or.inl ⟨rfl, rfl⟩
      | succ k =>
        obtain ⟨c, hc, hDescends⟩ := descends_succ_iff.mp hDescends
        exact Or.inr ⟨c, hc, y, k, ih.mpr ⟨hDescends, Nat.le_of_succ_le_succ hk⟩, rfl, rfl⟩

theorem mem_visitsBelow_iff {relationship : Relationship} {distance levels : Nat} :
    v ∈ t.visitsBelow relationship distance levels x ↔
      ∃ k y, t.Descends x k y ∧ k ≤ levels ∧ v = ⟨relationship, distance + k, y⟩ := by
  rw [visitsBelow, List.mem_map]
  constructor
  · rintro ⟨⟨y, k⟩, hMem, rfl⟩
    obtain ⟨hDescends, hk⟩ := mem_levelsBelow_iff.mp hMem
    exact ⟨k, y, hDescends, hk, rfl⟩
  · rintro ⟨k, y, hDescends, hk, rfl⟩
    exact ⟨(y, k), mem_levelsBelow_iff.mpr ⟨hDescends, hk⟩, rfl⟩

theorem Rooted.mem_visitsAbove_iff (h : t.Rooted) :
    v ∈ t.visitsAbove bounds x ↔
      ∃ k a, t.Descends a (k + 1) x ∧ k + 1 ≤ bounds.maxAncestorDepth ∧
        (v = ⟨.parent, k + 1, a⟩ ∨ ∃ e ∈ t.transcluded a,
          v ∈ t.visitsBelow .parent (k + 1 + 1) (bounds.maxSubtreeDepth - 1) e.2) := by
  have hTaken : ∀ a r hops, ((a, r), hops) ∈
      ((t.ancestors x).take bounds.maxAncestorDepth).zipIdx 1 ↔
        ∃ k, hops = k + 1 ∧ k + 1 ≤ bounds.maxAncestorDepth ∧ t.Descends a (k + 1) x ∧
          t.record? a = some r := by
    intro a r hops
    rw [List.mk_mem_zipIdx_iff_le_and_getElem?_sub, List.getElem?_take]
    constructor
    · rintro ⟨hOne, hAt⟩
      obtain ⟨k, rfl⟩ := Nat.exists_eq_add_of_le' hOne
      split at hAt
      · rename_i hk
        exact ⟨k, rfl, hk, h.getElem?_ancestors.mp hAt⟩
      · cases hAt
    · rintro ⟨k, rfl, hk, hAt⟩
      rw [Nat.add_sub_cancel, if_pos (Nat.lt_of_succ_le hk)]
      exact ⟨Nat.le_add_left 1 k, h.getElem?_ancestors.mpr hAt⟩
  have hTranscluded : ∀ {a r}, t.record? a = some r → t.transcluded a = r.transcluded := by
    intro a r hr
    rw [transcluded, hr, Option.map_some, Option.getD_some]
  rw [visitsAbove]
  simp only [List.mem_flatMap, List.mem_cons, Prod.exists, hTaken]
  constructor
  · rintro ⟨a, r, -, ⟨k, rfl, hk, hAbove, hr⟩, hv⟩
    rw [← hTranscluded hr] at hv
    exact ⟨k, a, hAbove, hk, hv⟩
  · rintro ⟨k, a, hAbove, hk, hv⟩
    obtain ⟨r, hAt⟩ := h.exists_getElem?_ancestors hAbove
    have hr := (h.getElem?_ancestors.mp hAt).2
    rw [hTranscluded hr] at hv
    exact ⟨a, r, k + 1, ⟨k, rfl, hk, hAbove, hr⟩, hv⟩

/-- A scope with a place among children is a child at that place. -/
theorem Rooted.indexInParent?_eq_some_iff (h : t.Rooted) {i : Nat} :
    t.parent? x = some p ∧ t.indexInParent? x = some i ↔ (t.children p)[i]? = some x := by
  constructor
  · rintro ⟨hp, hi⟩
    rw [indexInParent?, hp] at hi
    obtain ⟨hlt, hx, -⟩ := List.findIdx?_eq_some_iff_getElem.mp hi
    rw [List.getElem?_eq_getElem hlt, beq_iff_eq.mp hx]
  · intro hx
    have hMem := List.mem_of_getElem? hx
    obtain ⟨s, r, hc, -, -, hIndex⟩ := h.exists_split hMem
    refine ⟨h.parent?_of_mem_children hMem, ?_⟩
    have hs : (t.children p)[s.length]? = some x := by simp [hc]
    rw [hIndex, (List.getElem?_inj (List.getElem?_eq_some_iff.mp hs).1 (h.nodup_children p)).mp
      (hs.trans hx.symm)]

theorem Rooted.mem_visitsBeside_iff (h : t.Rooted) :
    v ∈ t.visitsBeside bounds x ↔ ∃ p i o s, (t.children p)[i]? = some x ∧
      o + 1 ≤ bounds.maxSiblingDistance ∧
        (o + 1 ≤ i ∧ (t.children p)[i - (o + 1)]? = some s ∧
            v ∈ t.visitsBelow .prev (o + 1) bounds.maxSubtreeDepth s ∨
          (t.children p)[i + (o + 1)]? = some s ∧
            v ∈ t.visitsBelow .next (o + 1) bounds.maxSubtreeDepth s) := by
  rw [visitsBeside]
  split
  · rename_i p i hp hi
    have hx := h.indexInParent?_eq_some_iff.mp ⟨hp, hi⟩
    simp only [List.mem_flatMap, List.mem_range', List.mem_append]
    constructor
    · rintro ⟨_, ⟨o, ho, rfl⟩, hv⟩
      have hBound : o + 1 ≤ bounds.maxSiblingDistance := by omega
      rw [Nat.one_mul, Nat.add_comm 1 o] at hv
      refine ⟨p, i, o, ?_⟩
      rcases hv with hv | hv
      · split at hv
        · rename_i s hs
          obtain ⟨place, hPlace, hs⟩ := Option.bind_eq_some_iff.mp hs
          split at hPlace
          · rename_i hLe
            cases hPlace
            exact ⟨s, hx, hBound, Or.inl ⟨hLe, hs, hv⟩⟩
          · cases hPlace
        · cases hv
      · split at hv
        · rename_i s hs
          exact ⟨s, hx, hBound, Or.inr ⟨hs, hv⟩⟩
        · cases hv
    · rintro ⟨q, i', o, s, hx', hBound, hv⟩
      obtain ⟨hq, hi'⟩ := h.indexInParent?_eq_some_iff.mpr hx'
      obtain rfl := Option.some.inj (hp.symm.trans hq)
      obtain rfl := Option.some.inj (hi.symm.trans hi')
      have hi := (List.getElem?_eq_some_iff.mp hx).1
      rcases hv with ⟨hLe, hs, hv⟩ | ⟨hs, hv⟩
      · refine ⟨o + 1, ⟨o, by omega, by omega⟩, Or.inl ?_⟩
        rw [if_pos hLe, Option.bind_some, hs]
        exact hv
      · have := (List.getElem?_eq_some_iff.mp hs).1
        refine ⟨o + 1, ⟨o, by omega, by omega⟩, Or.inr ?_⟩
        rw [Option.bind_some, hs]
        exact hv
  · rename_i hNone
    constructor
    · rintro ⟨⟩
    · rintro ⟨p, i, o, s, hx, -⟩
      obtain ⟨hp, hi⟩ := h.indexInParent?_eq_some_iff.mpr hx
      exact (hNone p i hp hi).elim

/-- The search comes to the scopes near a scope and to no others. -/
theorem Rooted.mem_visits_iff (h : t.Rooted) :
    v ∈ t.visits bounds x ↔ t.Near bounds bounds.Follows x v := by
  rw [visits, List.mem_append, List.mem_append, h.mem_visitsAbove_iff, h.mem_visitsBeside_iff]
  simp only [mem_visitsBelow_iff]
  constructor
  · rintro ((⟨k, y, hBelow, hDepth, rfl⟩ | ⟨k, a, hAbove, hBound, hv⟩) |
      ⟨p, i, o, s, hx, hBound, hv⟩)
    · rw [Nat.zero_add]
      exact .below hBelow hDepth
    · rcases hv with rfl | ⟨e, he, j, y, hBelow, hDepth, rfl⟩
      · exact .above hAbove hBound
      · rw [Nat.add_assoc _ 1 j, Nat.add_comm 1 j]
        exact .referenced hAbove hBound he hBelow (by rw [SearchBounds.Follows]; omega)
    · rcases hv with ⟨hi, hs, k, y, hBelow, hDepth, rfl⟩ | ⟨hs, k, y, hBelow, hDepth, rfl⟩
      · exact .before (by rwa [Nat.sub_add_cancel hi]) hs hBound hBelow hDepth
      · exact .after hx hs hBound hBelow hDepth
  · intro hNear
    cases hNear with
    | below hBelow hDepth => exact Or.inl (Or.inl ⟨_, _, hBelow, hDepth, by rw [Nat.zero_add]⟩)
    | above hAbove hBound => exact Or.inl (Or.inr ⟨_, _, hAbove, hBound, Or.inl rfl⟩)
    | @referenced n k a y e hAbove hBound hReference hBelow hDepth =>
      rw [SearchBounds.Follows] at hDepth
      refine Or.inl (Or.inr ⟨_, _, hAbove, hBound, Or.inr ⟨_, hReference, _, _, hBelow, ?_, ?_⟩⟩)
      · omega
      · rw [Nat.add_assoc (n + 1) 1 k, Nat.add_comm 1 k]
    | @before p s y i o k hx hs hBound hBelow hDepth =>
      refine Or.inr ⟨p, _, o, s, hx, hBound, Or.inl ⟨Nat.le_add_left _ _, ?_, _, _, hBelow, hDepth,
        rfl⟩⟩
      rwa [Nat.add_sub_cancel]
    | @after p s y i o k hx hs hBound hBelow hDepth =>
      exact Or.inr ⟨p, _, o, s, hx, hBound, Or.inr ⟨hs, _, _, hBelow, hDepth, rfl⟩⟩

/-! ## What is kept -/

/-- Of the parameters that were found so far, one for each node is kept, a nearest one. -/
structure Kept (found kept : List Parameter) : Prop where
  nodup : (kept.map Parameter.node).Nodup
  sub : ∀ q ∈ kept, q ∈ found
  covers : ∀ p ∈ found, p.node ∈ kept.map Parameter.node
  least : ∀ q ∈ kept, ∀ p ∈ found, p.node = q.node → q.distance ≤ p.distance

theorem map_node_keepNearest (p : Parameter) (kept : List Parameter) :
    (keepNearest p kept).map Parameter.node =
      if p.node ∈ kept.map Parameter.node then kept.map Parameter.node
      else kept.map Parameter.node ++ [p.node] := by
  induction kept with
  | nil => rfl
  | cons q rest ih =>
    rw [keepNearest]
    by_cases hNode : q.node = p.node
    · have hMem : p.node ∈ (q :: rest).map Parameter.node := by simp [hNode]
      rw [if_pos hNode, if_pos hMem]
      split
      · rfl
      · rw [List.map_cons, List.map_cons, hNode]
    · rw [if_neg hNode, List.map_cons, ih]
      simp only [List.map_cons, List.mem_cons, Ne.symm hNode, false_or]
      split <;> rfl

/-- What is kept of a node stays, unless a nearer one comes. -/
theorem mem_keepNearest_iff {p q : Parameter} {kept : List Parameter}
    (hNodup : (kept.map Parameter.node).Nodup) :
    q ∈ keepNearest p kept ↔
      (q ∈ kept ∧ (q.node = p.node → q.distance ≤ p.distance)) ∨
        (q = p ∧ ∀ o ∈ kept, o.node = p.node → p.distance < o.distance) := by
  induction kept with
  | nil => simp [keepNearest]
  | cons o rest ih =>
    rw [List.map_cons, List.nodup_cons] at hNodup
    rw [keepNearest]
    by_cases hNode : o.node = p.node
    · -- No other one of this node has been kept.
      have hOther : ∀ q ∈ rest, q.node ≠ p.node := fun q hq hEq =>
        hNodup.1 (hNode.trans hEq.symm ▸ List.mem_map_of_mem hq)
      rw [if_pos hNode]
      split
      · rename_i hLe
        constructor
        · intro hq
          refine Or.inl ⟨hq, fun hqNode => ?_⟩
          rcases List.mem_cons.mp hq with rfl | hq
          · exact hLe
          · exact (hOther q hq hqNode).elim
        · rintro (⟨hq, -⟩ | ⟨rfl, hLess⟩)
          · exact hq
          · exact absurd (hLess o List.mem_cons_self hNode) (by omega)
      · rename_i hLess
        rw [List.mem_cons]
        constructor
        · rintro (rfl | hq)
          · refine Or.inr ⟨rfl, fun o' ho' hNode' => ?_⟩
            rcases List.mem_cons.mp ho' with rfl | ho'
            · omega
            · exact (hOther o' ho' hNode').elim
          · exact Or.inl ⟨List.mem_cons_of_mem o hq, fun hqNode => (hOther q hq hqNode).elim⟩
        · rintro (⟨hq, hLe⟩ | ⟨rfl, -⟩)
          · rcases List.mem_cons.mp hq with rfl | hq
            · exact absurd (hLe hNode) (by omega)
            · exact Or.inr hq
          · exact Or.inl rfl
    · rw [if_neg hNode, List.mem_cons, ih hNodup.2]
      simp only [List.mem_cons, forall_eq_or_imp, hNode, false_implies, true_and]
      constructor
      · rintro (rfl | ⟨hq, hLe⟩ | hq)
        · exact Or.inl ⟨Or.inl rfl, fun hqNode => (hNode hqNode).elim⟩
        · exact Or.inl ⟨Or.inr hq, hLe⟩
        · exact Or.inr hq
      · rintro (⟨rfl | hq, hLe⟩ | hq)
        · exact Or.inl rfl
        · exact Or.inr (Or.inl ⟨hq, hLe⟩)
        · exact Or.inr (Or.inr hq)

theorem Kept.keepNearest {found kept : List Parameter} (h : Kept found kept) (p : Parameter) :
    Kept (found ++ [p]) (keepNearest p kept) where
  nodup := by
    rw [map_node_keepNearest]
    split
    · exact h.nodup
    · rename_i hNew
      exact List.nodup_append_comm.mp (List.nodup_cons.mpr ⟨hNew, h.nodup⟩)
  sub q hq := by
    rcases (mem_keepNearest_iff h.nodup).mp hq with ⟨hq, -⟩ | ⟨rfl, -⟩
    · exact List.mem_append_left _ (h.sub q hq)
    · exact List.mem_append_right _ (List.mem_singleton_self q)
  covers o ho := by
    rw [map_node_keepNearest]
    rcases List.mem_append.mp ho with ho | ho
    · split
      · exact h.covers o ho
      · exact List.mem_append_left _ (h.covers o ho)
    · obtain rfl := List.mem_singleton.mp ho
      split
      · assumption
      · exact List.mem_append_right _ (List.mem_singleton_self _)
  least q hq o ho hNode := by
    rcases (mem_keepNearest_iff h.nodup).mp hq with ⟨hq, hLe⟩ | ⟨rfl, hLess⟩
    · rcases List.mem_append.mp ho with ho | ho
      · exact h.least q hq o ho hNode
      · obtain rfl := List.mem_singleton.mp ho
        exact hLe hNode.symm
    · rcases List.mem_append.mp ho with ho | ho
      · -- What was kept of the node is no farther away than any that came before.
        obtain ⟨k, hk, hkNode⟩ := List.mem_map.mp (h.covers o ho)
        have := hLess k hk (hkNode.trans hNode)
        have := h.least k hk o ho hkNode.symm
        omega
      · obtain rfl := List.mem_singleton.mp ho
        exact Nat.le_refl _

theorem kept_foldl (found : List Parameter) :
    Kept found (found.foldl (fun kept p => keepNearest p kept) []) := by
  induction found using List.reverseRecOn with
  | nil => exact ⟨List.nodup_nil, by simp, by simp, by simp⟩
  | append_singleton found p ih =>
    rw [List.foldl_append, List.foldl_cons, List.foldl_nil]
    exact ih.keepNearest p

/-! ## Collecting -/

/-- A scope that the search comes to supplies a typed value for its node: it is no placeholder, and its
value is typed and no text. -/
def Supplies (t : ScopeTree) (v : Visit) (n : NodeId) (type : ValueType) : Prop :=
  t.node? v.scope = some n ∧ t.isPlaceholder v.scope = false ∧
    t.valueType? v.scope = some type ∧ type ≠ .text

theorem parameter?_eq_some_iff {q : Parameter} :
    t.parameter? v = some q ↔ t.Supplies v q.node q.type ∧ t.typedValue? v.scope = some q.value ∧
      q.relationship = v.relationship ∧ q.distance = v.distance ∧ q.scope = v.scope ∧
      q.path = t.placePath v.scope := by
  rw [parameter?]
  constructor
  · intro hq
    split at hq
    · rename_i r value hr hValue
      split at hq
      · rename_i type hType
        split at hq
        · cases hq
        · rename_i hOpen
          cases hq
          rw [Bool.or_eq_true, not_or, Bool.not_eq_true, decide_eq_true_eq] at hOpen
          refine ⟨⟨node?_of_record? hr, ?_, ?_, hOpen.2⟩, hValue, rfl, rfl, rfl, rfl⟩
          · rw [isPlaceholder, hr, Option.map_some, Option.getD_some, hOpen.1]
          · rw [valueType?, hValue, Option.bind_some, hType]
      · cases hq
    · cases hq
  · rintro ⟨⟨hNode, hOpen, hType, hText⟩, hValue, hRelationship, hDistance, hScope, hPath⟩
    obtain ⟨r, hr, hNode⟩ := Option.map_eq_some_iff.mp hNode
    rw [isPlaceholder, hr, Option.map_some, Option.getD_some] at hOpen
    rw [valueType?, hValue, Option.bind_some] at hType
    simp only [hr, hValue, hType]
    rw [if_neg (by simp [hOpen, hText])]
    obtain ⟨relationship, distance, type, value, node, scope, path⟩ := q
    subst hRelationship hDistance hScope hPath hNode
    rfl

/-- What a visit supplies makes up a parameter. -/
theorem Supplies.exists_parameter {n : NodeId} {type : ValueType} (h : t.Supplies v n type) :
    ∃ q, t.parameter? v = some q ∧ q.node = n ∧ q.distance = v.distance := by
  obtain ⟨value, hValue, -⟩ := Option.bind_eq_some_iff.mp h.2.2.1
  exact ⟨⟨v.relationship, v.distance, type, value, n, v.scope, t.placePath v.scope⟩,
    parameter?_eq_some_iff.mpr ⟨h, hValue, rfl, rfl, rfl, rfl⟩, rfl, rfl⟩

/-- Parameters are the nearest sources around a scope: one for each node that has a typed value there,
with the data of a place where it is nearest, and the nearest nodes first. -/
structure Nearest (t : ScopeTree) (bounds : SearchBounds) (depths : Nat → Prop) (x : ScopeId)
    (ps : List Parameter) : Prop where
  nodup : (ps.map Parameter.node).Nodup
  mem_iff : ∀ n, n ∈ ps.map Parameter.node ↔
    ∃ v type, t.Near bounds depths x v ∧ t.Supplies v n type
  attained : ∀ q ∈ ps, ∃ v, t.Near bounds depths x v ∧ t.Supplies v q.node q.type ∧
    t.typedValue? v.scope = some q.value ∧ q.relationship = v.relationship ∧
      q.distance = v.distance ∧ q.scope = v.scope
  least : ∀ q ∈ ps, ∀ v type, t.Near bounds depths x v → t.Supplies v q.node type →
    q.distance ≤ v.distance
  sorted : ps.Pairwise fun p q => p.distance ≤ q.distance

/-- Every parameter is what some visit gives. -/
theorem exists_visit_of_mem_parameters {q : Parameter} (hq : q ∈ t.parameters bounds x) :
    ∃ v ∈ t.visits bounds x, t.parameter? v = some q := by
  rw [parameters] at hq
  exact List.mem_filterMap.mp ((kept_foldl _).sub q ((List.mergeSort_perm _ _).mem_iff.mp hq))

theorem parameters_eq_foldl (hSorted : (((t.visits bounds x).filterMap t.parameter?).foldl
      (fun kept p => keepNearest p kept) []).Pairwise fun p q => decide (p.distance ≤ q.distance)) :
    t.parameters bounds x = ((t.visits bounds x).filterMap t.parameter?).foldl
      (fun kept p => keepNearest p kept) [] :=
  List.mergeSort_of_pairwise hSorted

/-- The parameters that the visits give, the nearest one of each node, are the nearest sources. -/
theorem Rooted.nearest_parameters (h : t.Rooted) (bounds : SearchBounds) (x : ScopeId) :
    t.Nearest bounds bounds.Follows x (t.parameters bounds x) := by
  have hFound : ∀ {v q}, t.Near bounds bounds.Follows x v → t.parameter? v = some q →
      q ∈ (t.visits bounds x).filterMap t.parameter? := fun hNear hq =>
    List.mem_filterMap.mpr ⟨_, h.mem_visits_iff.mpr hNear, hq⟩
  have hAttained : ∀ q ∈ t.parameters bounds x,
      ∃ v, t.Near bounds bounds.Follows x v ∧ t.parameter? v = some q := by
    intro q hq
    obtain ⟨v, hv, hParameter⟩ := exists_visit_of_mem_parameters hq
    exact ⟨v, h.mem_visits_iff.mp hv, hParameter⟩
  have hKept := kept_foldl ((t.visits bounds x).filterMap t.parameter?)
  rw [parameters] at hAttained ⊢
  generalize ((t.visits bounds x).filterMap t.parameter?).foldl (fun kept p => keepNearest p kept) [] =
    kept at hKept hAttained ⊢
  have hPerm := List.mergeSort_perm kept fun p q => decide (p.distance ≤ q.distance)
  refine ⟨?_, fun n => ?_, ?_, ?_, ?_⟩
  · exact (hPerm.map Parameter.node).nodup_iff.mpr hKept.nodup
  · rw [(hPerm.map Parameter.node).mem_iff]
    constructor
    · intro hn
      obtain ⟨q, hq, rfl⟩ := List.mem_map.mp hn
      obtain ⟨v, hNear, hParameter⟩ := hAttained q (hPerm.mem_iff.mpr hq)
      exact ⟨v, q.type, hNear, (parameter?_eq_some_iff.mp hParameter).1⟩
    · rintro ⟨v, type, hNear, hSupplies⟩
      obtain ⟨q, hParameter, rfl, -⟩ := hSupplies.exists_parameter
      exact hKept.covers q (hFound hNear hParameter)
  · intro q hq
    obtain ⟨v, hNear, hParameter⟩ := hAttained q hq
    obtain ⟨hSupplies, hValue, hRelationship, hDistance, hScope, -⟩ :=
      parameter?_eq_some_iff.mp hParameter
    exact ⟨v, hNear, hSupplies, hValue, hRelationship, hDistance, hScope⟩
  · intro q hq v type hNear hSupplies
    obtain ⟨o, hParameter, hNode, hDistance⟩ := hSupplies.exists_parameter
    rw [← hDistance]
    exact hKept.least q (hPerm.mem_iff.mp hq) o (hFound hNear hParameter) hNode
  · have hSorted := @List.pairwise_mergeSort Parameter (fun p q => decide (p.distance ≤ q.distance))
      (fun a b c hab hbc => by simp only [decide_eq_true_eq] at *; omega)
      (fun a b => by simp only [Bool.or_eq_true, decide_eq_true_eq]; omega) kept
    exact hSorted.imp fun hLe => of_decide_eq_true hLe

end ScopeTree

/-! ## Sessions -/

namespace Session

open ScopeTree

/-- Whatever has been evaluated, disabled and built anew, the parameters of a scope are the nearest
sources around it. References above it are followed to the scopes that they lead to, and from there as
far as the bound allows. -/
theorem reachable_parameters (d : Document) (functions : Registry) (config : EngineConfig)
    (providers : Directory) {s : Session}
    (h : Reachable (ofTree (.build d) functions config providers) s) (bounds : SearchBounds)
    (x : ScopeId) : s.tree.Nearest bounds bounds.Follows x (s.tree.parameters bounds x) :=
  (h.rooted (rooted_build d)).nearest_parameters bounds x

/-- A number with another one below it, a bullet beside it, and a reference to it above. -/
def shelfOutline : String := "- [p] \x7b#[a]\x7d\n  - [s] x\n  - [a] 5\n    - [b] 6\n"

def shelf : Document :=
  ⟨"root", [⟨"root", "", ["p"]⟩, ⟨"p", "\x7b#[a]\x7d", ["s", "a"]⟩, ⟨"s", "x", []⟩,
    ⟨"a", "5", ["b"]⟩, ⟨"b", "6", []⟩], 0⟩

/-- The reference above leads to the first number in two steps, but the number stands right beside. -/
theorem reachable_parameters_shelf :
    ∃ s, s = ((ofTree (.build shelf) [] .default .empty).startAll ⟨0, 0⟩).settle ∧
      ⟨.parent, 2, ⟨5, 0⟩⟩ ∈ s.tree.visits ⟨8, 16, 4⟩ ⟨2, 0⟩ ∧ s.tree.node? ⟨5, 0⟩ = some "a" ∧
      (s.tree.parameters ⟨8, 16, 4⟩ ⟨2, 0⟩).map (fun q => (q.node, q.relationship, q.distance)) =
        [("p", .parent, 1), ("a", .next, 1), ("b", .next, 2)] ∧
      s.tree.Nearest ⟨8, 16, 4⟩ (SearchBounds.Follows ⟨8, 16, 4⟩) ⟨2, 0⟩
        (s.tree.parameters ⟨8, 16, 4⟩ ⟨2, 0⟩) := by
  refine ⟨_, rfl, ?_⟩
  generalize hs : ((ofTree (.build shelf) [] .default .empty).startAll ⟨0, 0⟩).settle = s
  have hReachable : Reachable (ofTree (.build shelf) [] .default .empty) s := by
    rw [← hs]
    exact .settle (.evaluate _ .refl)
  have hVisited : ⟨.parent, 2, ⟨5, 0⟩⟩ ∈ s.tree.visits ⟨8, 16, 4⟩ ⟨2, 0⟩ ∧
      s.tree.node? ⟨5, 0⟩ = some "a" := by
    rw [← hs]
    decide +kernel
  have hKept : ((s.tree.visits ⟨8, 16, 4⟩ ⟨2, 0⟩).filterMap s.tree.parameter?).foldl
        (fun kept p => keepNearest p kept) [] |>.Pairwise fun p q => decide (p.distance ≤ q.distance) := by
    rw [← hs]
    decide +kernel
  refine ⟨hVisited.1, hVisited.2, ?_, reachable_parameters shelf _ _ _ hReachable _ _⟩
  rw [parameters_eq_foldl hKept, ← hs]
  decide +kernel

end Session

namespace ScopeTree

/-- With no levels below a scope, a reference above is followed to its scope all the same, but no
farther. So the parameters are neither the nearest sources with all that references lead to nor those
within the bound. -/
theorem not_nearest_shelf :
    Document.ofOutline .start Session.shelfOutline.toList = .ok (Session.shelf, .start) ∧
      ∃ t bounds, t = build Session.shelf ∧ bounds = ⟨0, 16, 0⟩ ∧
        ¬ t.Nearest bounds (fun _ => True) ⟨2, 0⟩ (t.parameters bounds ⟨2, 0⟩) ∧
        ¬ t.Nearest bounds (· ≤ bounds.maxSubtreeDepth) ⟨2, 0⟩ (t.parameters bounds ⟨2, 0⟩) := by
  refine ⟨by cbv, _, _, rfl, rfl, ?_⟩
  generalize ht : build Session.shelf = t
  have hFound : ((t.parameters ⟨0, 16, 0⟩ ⟨2, 0⟩).map fun q =>
      (q.node, q.relationship, q.distance, q.scope)) = [("a", .parent, 2, ⟨5, 0⟩)] := by
    rw [← ht]
    decide +kernel
  have hPlaces : (⟨2, 0⟩, 1) ∈ t.levelsBelow 1 ⟨1, 0⟩ ∧ ("a", ⟨5, 0⟩) ∈ t.transcluded ⟨1, 0⟩ ∧
      (⟨6, 0⟩, 1) ∈ t.levelsBelow 1 ⟨5, 0⟩ ∧ (⟨2, 0⟩, 2) ∉ t.levelsBelow 2 ⟨5, 0⟩ := by
    rw [← ht]
    decide +kernel
  have hSupplies : t.Supplies ⟨.parent, 3, ⟨6, 0⟩⟩ "b" .number := by
    rw [← ht, Supplies]
    decide +kernel
  obtain ⟨hAbove, hReference, hBelow, hApart⟩ := hPlaces
  constructor
  · -- The reference leads to the second number too.
    intro hNearest
    have hNear : t.Near ⟨0, 16, 0⟩ (fun _ => True) ⟨2, 0⟩ ⟨.parent, 3, ⟨6, 0⟩⟩ :=
      .referenced (mem_levelsBelow_iff.mp hAbove).1 (by decide) hReference
        (mem_levelsBelow_iff.mp hBelow).1 trivial
    have hMem := (hNearest.mem_iff "b").mpr ⟨_, _, hNear, hSupplies⟩
    have hNodes := congrArg (List.map Prod.fst) hFound
    rw [List.map_map] at hNodes
    rw [show (t.parameters ⟨0, 16, 0⟩ ⟨2, 0⟩).map Parameter.node = ["a"] from hNodes] at hMem
    simp at hMem
  · -- The first number is not within the bound.
    intro hNearest
    have hRow : ("a", Relationship.parent, 2, (⟨5, 0⟩ : ScopeId)) ∈
        (t.parameters ⟨0, 16, 0⟩ ⟨2, 0⟩).map fun q => (q.node, q.relationship, q.distance, q.scope) := by
      rw [hFound]
      exact List.mem_singleton_self _
    obtain ⟨q, hq, hRow⟩ := List.mem_map.mp hRow
    obtain ⟨-, hParent, hTwo, hFive⟩ : q.node = "a" ∧ q.relationship = .parent ∧ q.distance = 2 ∧
        q.scope = ⟨5, 0⟩ := by simpa using hRow
    obtain ⟨v, hNear, -, -, hRelationship, hDistance, hScope⟩ := hNearest.attained q hq
    rw [hParent] at hRelationship
    rw [hTwo] at hDistance
    rw [hFive] at hScope
    cases hNear with
    | @above h a hUp _ =>
      obtain rfl : h = 1 := Nat.succ.inj hDistance.symm
      obtain rfl : _ = a := hScope
      exact hApart (mem_levelsBelow_iff.mpr ⟨hUp, Nat.le_refl 2⟩)
    | referenced _ _ _ _ hDepth => exact absurd hDepth (Nat.not_succ_le_zero _)
    | below | before | after => cases hRelationship

end ScopeTree

end FormulaOutline
