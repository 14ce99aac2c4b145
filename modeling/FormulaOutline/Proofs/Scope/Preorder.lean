import FormulaOutline.Proofs.Pattern.Places

/-!
# The order of the outline

The scopes below the root are listed each before its children and these before what comes behind it.

* `Preorder`: this order by its rules, with the scopes that are still to be visited.
* `preorder_below`: the scopes below the root are listed in this order.
* `Preorder.nodup`: no scope is visited twice.
* `Preorder.siblings`: of two siblings the one that is visited first stands first among the children.
-/

namespace FormulaOutline.ScopeTree

/-- Scopes that are still to be visited, and all scopes in the order in which they are visited from
there: a scope, then its children, then the others. -/
inductive Preorder (t : ScopeTree) : List ScopeId → List ScopeId → Prop
  | done : Preorder t [] []
  | visit {x : ScopeId} {rest visited : List ScopeId}
      (h : Preorder t (t.children x ++ rest) visited) : Preorder t (x :: rest) (x :: visited)

/-- Two scopes neither of which is below the other one. -/
def Apart (t : ScopeTree) (x y : ScopeId) : Prop :=
  ¬ t.arena.Reaches x y ∧ ¬ t.arena.Reaches y x

variable {t : ScopeTree} {x y p : ScopeId} {pending visited rest : List ScopeId}

namespace Preorder

theorem sublist (h : t.Preorder pending visited) : pending.Sublist visited := by
  induction h with
  | done => exact .refl []
  | visit _ ih => exact ((List.sublist_append_right _ _).trans ih).cons_cons _

/-- The children of a scope are visited in their order. -/
theorem children_sublist (h : t.Preorder pending visited) (hp : p ∈ visited) :
    (t.children p).Sublist visited := by
  induction h with
  | done => cases hp
  | @visit x rest visited h ih =>
    rcases List.mem_cons.mp hp with rfl | hp
    · exact ((List.sublist_append_left _ rest).trans h.sublist).cons p
    · exact (ih hp).cons x

theorem exists_reaches (h : t.Preorder pending visited) (hy : y ∈ visited) :
    ∃ x ∈ pending, t.arena.Reaches x y := by
  induction h with
  | done => cases hy
  | @visit x rest visited _ ih =>
    rcases List.mem_cons.mp hy with rfl | hy
    · exact ⟨y, List.mem_cons_self, .refl⟩
    · obtain ⟨z, hz, hReaches⟩ := ih hy
      rcases List.mem_append.mp hz with hz | hz
      · exact ⟨x, List.mem_cons_self, .head (owns_of_mem_children hz) hReaches⟩
      · exact ⟨z, List.mem_cons_of_mem x hz, hReaches⟩

end Preorder

/-- The children of a scope are apart from each other. -/
theorem Rooted.apart_children (h : t.Rooted) (p : ScopeId) : (t.children p).Pairwise t.Apart := by
  have hNot : ∀ c ∈ t.children p, ∀ c' ∈ t.children p, c ≠ c' → ¬ t.arena.Reaches c c' := by
    intro c hc c' hc' hne hReaches
    rcases (h.reaches_iff_of_owns (owns_of_mem_children hc')).mp hReaches with rfl | hUp
    · exact hne rfl
    · exact h.not_reaches_owner (owns_of_mem_children hc) hUp
  exact (h.nodup_children p).imp_of_mem fun hc hc' hne =>
    ⟨hNot _ hc _ hc' hne, hNot _ hc' _ hc hne.symm⟩

/-- What is apart from a scope is apart from the scope's children. -/
theorem Rooted.apart_of_child (h : t.Rooted) {c : ScopeId} (hc : c ∈ t.children x)
    (hApart : t.Apart x y) : t.Apart c y := by
  have hOwns := owns_of_mem_children hc
  refine ⟨fun hReaches => hApart.1 (.head hOwns hReaches), fun hReaches => ?_⟩
  rcases (h.reaches_iff_of_owns hOwns).mp hReaches with rfl | hUp
  · exact hApart.1 (.single hOwns)
  · exact hApart.2 hUp

namespace Preorder

/-- No scope is visited twice, if none of those that are to be visited is below another one. -/
theorem nodup (hRooted : t.Rooted) (h : t.Preorder pending visited)
    (hApart : pending.Pairwise t.Apart) : visited.Nodup := by
  induction h with
  | done => exact List.nodup_nil
  | @visit x rest visited h ih =>
    rw [List.pairwise_cons] at hApart
    refine List.nodup_cons.mpr ⟨fun hx => ?_, ih ?_⟩
    · obtain ⟨z, hz, hReaches⟩ := h.exists_reaches hx
      rcases List.mem_append.mp hz with hz | hz
      · exact hRooted.not_reaches_owner (owns_of_mem_children hz) hReaches
      · exact (hApart.1 z hz).2 hReaches
    · exact List.pairwise_append.mpr ⟨hRooted.apart_children x, hApart.2,
        fun c hc y hy => hRooted.apart_of_child hc (hApart.1 y hy)⟩

/-- Of two siblings the one that is visited first stands first among the children. -/
theorem siblings (h : t.Preorder pending visited) (hNodup : visited.Nodup) (hp : p ∈ visited)
    (hx : x ∈ t.children p) (hy : y ∈ t.children p) {before after : List ScopeId}
    (hVisited : visited = before ++ x :: after) (hAfter : y ∈ after) :
    ∃ s m q, t.children p = s ++ x :: (m ++ y :: q) := by
  rw [hVisited, List.nodup_append, List.nodup_cons] at hNodup
  have hne : x ≠ y := fun hEq => hNodup.2.1.1 (hEq ▸ hAfter)
  obtain ⟨s, m, q, hSplit | hSplit⟩ := split_two hx hy hne
  · exact ⟨s, m, q, hSplit⟩
  · -- In the other order `x` would be visited behind `y`, which is behind `x`.
    have hTwo : [y, x].Sublist (t.children p) := by
      rw [hSplit]
      exact ((List.singleton_sublist.mpr (by simp)).cons_cons y).trans (List.sublist_append_right _ _)
    have hTwo := hTwo.trans (h.children_sublist hp)
    rw [hVisited] at hTwo
    obtain ⟨first, last, hEq, hFirst, hLast⟩ := List.sublist_append_iff.mp hTwo
    cases first with
    | nil =>
      rw [List.nil_append] at hEq
      subst hEq
      cases hLast with
      | cons _ hLast => exact (hNodup.2.1.1 (hLast.subset (by simp))).elim
      | cons_cons _ _ => exact (hne rfl).elim
    | cons z first =>
      obtain rfl : y = z := (List.cons.inj hEq).1
      exact (hNodup.2.2 y (hFirst.subset List.mem_cons_self) y (List.mem_cons_of_mem x hAfter) rfl).elim

end Preorder

/-! ## The scopes below the root -/

theorem preorder_descendWithin (h : t.Rooted) {fuel k : Nat} (hx : t.Descends t.root k x)
    (hFuel : t.arena.slots.size < fuel + k) (hRest : t.Preorder rest visited) :
    t.Preorder (x :: rest)
      ((t.descendWithin (linksOf false) (fun _ u => u) fuel () x).map Prod.fst ++ visited) := by
  induction fuel generalizing x k rest visited with
  | zero =>
    have := h.depth_lt hx
    omega
  | succ fuel ih =>
    obtain ⟨root, hRoot, -⟩ := h.root
    obtain ⟨r, hr⟩ := h.live_of_descends ⟨root, hRoot⟩ hx
    have hChildren : ∀ cs, (∀ c ∈ cs, c ∈ t.children x) → t.Preorder (cs ++ rest) (cs.flatMap (fun c =>
        (t.descendWithin (linksOf false) (fun _ u => u) fuel () c).map Prod.fst) ++ visited) := by
      intro cs hcs
      induction cs with
      | nil => exact hRest
      | cons c cs ihChildren =>
        rw [List.forall_mem_cons] at hcs
        rw [List.cons_append, List.flatMap_cons, List.append_assoc]
        exact ih (hx.step (owns_of_mem_children hcs.1)) (by omega) (ihChildren hcs.2)
    rw [descendWithin, hr]
    simp only [List.map_cons, List.map_flatMap, List.cons_append]
    have hAll := hChildren (t.children x) fun _ hc => hc
    have hLinks : linksOf false r = t.children x := (children_of_record? hr).symm
    rw [hLinks]
    exact .visit hAll

/-- The scopes below the root are listed in the order of the outline. -/
theorem Rooted.preorder_below (h : t.Rooted) : t.Preorder [t.root] (t.below false t.root) := by
  have hFuel : t.arena.slots.size < t.arena.slots.size + 1 + 0 := by omega
  have hBelow := preorder_descendWithin h .here hFuel .done
  rwa [List.append_nil] at hBelow

/-- No scope is listed twice. -/
theorem Rooted.nodup_below (h : t.Rooted) : (t.below false t.root).Nodup :=
  h.preorder_below.nodup h (List.pairwise_singleton _ _)

end FormulaOutline.ScopeTree
