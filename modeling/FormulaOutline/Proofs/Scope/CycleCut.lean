import FormulaOutline.Proofs.Scope.Unchanged

/-!
# The tree of a document is its unfolding, cut at cycles

A document may lead back to a node along its children and references. Each step of the unfolding
takes a node that is not above yet, so that every branch ends in a placeholder or in a node that leads
nowhere; then the nodes above a scope are those of the branch, and the tree tells by itself where it
has been cut.

* `Document.Unfolds`: the unfolding by its rules, without any bound on its depth.
* `unfolds_iff`: the rules always come to an end, with what `Document.unfold` gives.
* `IsCycleCut`: what the scopes of a tree and the paths through it say of a document.
* `build_cycleCut`: the tree that is built of a document is what its root unfolds to.
-/

namespace FormulaOutline

open Relation Formula

/-! ## Unfolding by rules -/

namespace Document

/-- What a node unfolds to below the nodes of a path. -/
inductive Unfolds (d : Document) : List NodeId → NodeId → Blueprint → Prop
  | cut {path : List NodeId} {id : NodeId} (h : id ∈ path ∨ d.node? id = none) :
      Unfolds d path id (.placeholder id)
  | grow {path : List NodeId} {id : NodeId} {n : Node} {below : NodeId → Blueprint}
      (hid : id ∉ path) (hn : d.node? id = some n)
      (hChildren : ∀ c ∈ n.children, Unfolds d (id :: path) c (below c))
      (hReferences : ∀ c ∈ (bulletOrLiteral n.value.toList).referencedIds,
        Unfolds d (id :: path) c (below c)) :
      Unfolds d path id (.scope id (bulletOrLiteral n.value.toList) (n.children.map below)
        ((bulletOrLiteral n.value.toList).referencedIds.map below))

variable {d : Document} {path : List NodeId} {id : NodeId} {b : Blueprint}

theorem Unfolds.eq_unfold (h : d.Unfolds path id b) : b = d.unfold path id := by
  induction h with
  | cut h => rw [unfold_eq_placeholder h]
  | grow hid hn _ _ ihChildren ihReferences =>
    rw [unfold_eq_scope hid hn, List.map_congr_left ihChildren, List.map_congr_left ihReferences]

/-- Each step leaves less room beside the path, so the rules come to an end. -/
theorem unfolds_unfold (d : Document) (path : List NodeId) (id : NodeId) :
    d.Unfolds path id (d.unfold path id) := by
  by_cases hStop : id ∈ path ∨ d.node? id = none
  · rw [unfold_eq_placeholder hStop]
    exact .cut hStop
  · rw [not_or] at hStop
    obtain ⟨n, hn⟩ := Option.ne_none_iff_exists'.mp hStop.2
    have hLess := room_cons_lt hn hStop.1
    rw [unfold_eq_scope hStop.1 hn]
    exact .grow hStop.1 hn (fun c _ => unfolds_unfold d (id :: path) c)
      fun c _ => unfolds_unfold d (id :: path) c
termination_by d.room path

theorem unfolds_iff : d.Unfolds path id b ↔ b = d.unfold path id :=
  ⟨Unfolds.eq_unfold, fun h => h ▸ unfolds_unfold d path id⟩

end Document

/-- Scopes that spell blueprints have their nodes. -/
theorem Blueprint.AllSpelledBy.forall₂_node {a : Arena ScopeRecord} {bs : List Blueprint}
    {xs : List ScopeId} (h : AllSpelledBy a bs xs) :
    List.Forall₂ (fun b c => ∃ r, a.get? c = some r ∧ r.node = b.node) bs xs := by
  induction bs generalizing xs with
  | nil =>
    obtain rfl : xs = [] := h
    exact .nil
  | cons b rest ih =>
    obtain ⟨x, xs, rfl, hb, hRest⟩ := h
    exact .cons hb.node (ih hRest)

/-! ## First occurrences -/

/-- The distinct elements of a list, in the order in which they occur first. -/
structure AreFirstOccurrences {α : Type} [DecidableEq α] (l firsts : List α) : Prop where
  nodup : firsts.Nodup
  mem_iff : ∀ x, x ∈ firsts ↔ x ∈ l
  inOrder : firsts.Pairwise fun x y => l.idxOf x < l.idxOf y

/-- Leaving out an element moves the others forward without changing their order. -/
theorem idxOf_lt_of_filter {α : Type} [DecidableEq α] {l : List α} {q : α → Bool} {x y : α}
    (hy : q y = true) (h : (l.filter q).idxOf x < (l.filter q).idxOf y) : l.idxOf x < l.idxOf y := by
  induction l with
  | nil => simp at h
  | cons a rest ih =>
    by_cases hax : a = x
    · subst hax
      rw [List.idxOf_cons_self]
      by_cases hay : a = y
      · subst hay
        exact (Nat.lt_irrefl _ h).elim
      · rw [List.idxOf_cons_ne _ hay]
        exact Nat.succ_pos _
    · by_cases hay : a = y
      · subst hay
        rw [List.filter_cons_of_pos hy, List.idxOf_cons_self] at h
        exact (Nat.not_lt_zero _ h).elim
      · rw [List.idxOf_cons_ne _ hax, List.idxOf_cons_ne _ hay]
        refine Nat.succ_lt_succ (ih ?_)
        by_cases hq : q a = true
        · rw [List.filter_cons_of_pos hq, List.idxOf_cons_ne _ hax, List.idxOf_cons_ne _ hay] at h
          exact Nat.lt_of_succ_lt_succ h
        · rwa [List.filter_cons_of_neg hq] at h

theorem pairwise_idxOf_eraseDups {α : Type} [DecidableEq α] :
    (l : List α) → l.eraseDups.Pairwise fun x y => l.idxOf x < l.idxOf y
  | [] => .nil
  | a :: rest => by
    have hOthers : ∀ y ∈ (rest.filter fun b => !b == a).eraseDups, (!y == a) = true := by
      intro y hy
      rw [List.mem_eraseDups] at hy
      exact (List.mem_filter.mp hy).2
    have hNe : ∀ y, (!y == a) = true → a ≠ y := by
      rintro y hy rfl
      simp at hy
    rw [List.eraseDups_cons, List.pairwise_cons]
    constructor
    · intro y hy
      rw [List.idxOf_cons_self, List.idxOf_cons_ne _ (hNe y (hOthers y hy))]
      exact Nat.succ_pos _
    · refine (pairwise_idxOf_eraseDups (rest.filter fun b => !b == a)).imp_of_mem ?_
      intro x y hx hy hxy
      rw [List.idxOf_cons_ne _ (hNe x (hOthers x hx)), List.idxOf_cons_ne _ (hNe y (hOthers y hy))]
      exact Nat.succ_lt_succ (idxOf_lt_of_filter (hOthers y hy) hxy)
termination_by l => l.length
decreasing_by exact Nat.lt_succ_of_le (List.length_filter_le _ _)

theorem areFirstOccurrences_eraseDups {α : Type} [DecidableEq α] (l : List α) :
    AreFirstOccurrences l l.eraseDups :=
  ⟨nodup_eraseDups l, fun _ => List.mem_eraseDups, pairwise_idxOf_eraseDups l⟩

namespace ScopeTree

variable {t : ScopeTree} {d : Document} {x p c : ScopeId} {r : ScopeRecord}

/-! ## The scopes above a scope -/

/-- A scope is the parent of another one, or above its parent. -/
def IsAbove (t : ScopeTree) (p x : ScopeId) : Prop :=
  TransGen (fun c p => t.parent? c = some p) x p

theorem isAbove_of_parent? {q : ScopeId} (hp : t.parent? x = some p) :
    t.IsAbove q x ↔ q = p ∨ t.IsAbove q p := by
  rw [IsAbove, TransGen.head'_iff]
  simp only [hp, Option.some.injEq, exists_eq_left', reflTransGen_iff_eq_or_transGen]
  rfl

theorem not_isAbove_of_parent?_none {q : ScopeId} (hp : t.parent? x = none) : ¬ t.IsAbove q x := by
  intro h
  obtain ⟨p, hq, -⟩ := TransGen.head'_iff.mp h
  rw [hp] at hq
  cases hq

/-- The nodes on the path of a scope are the nodes of the scopes above it. -/
theorem Rooted.mem_pathOf_iff (h : t.Rooted) (hx : t.arena.Reaches t.root x) {n : NodeId} :
    n ∈ t.pathOf x ↔ ∃ p, t.IsAbove p x ∧ t.node? p = some n := by
  induction hx with
  | refl =>
    rw [h.pathOf_root]
    simp [not_isAbove_of_parent?_none h.parent?_root]
  | tail _ hOwns ih =>
    have hParent := h.parent?_of_owns hOwns
    obtain ⟨r, hr, hc⟩ := hOwns
    have hNode := node?_of_record? hr
    rw [h.pathOf_of_owns hr hc, List.mem_cons, ih, eq_comm]
    simp only [isAbove_of_parent? hParent, or_and_right, exists_or, exists_eq_left, hNode,
      Option.some.injEq]

theorem Rooted.eq_root_or_isAbove (h : t.Rooted) (hx : t.arena.Reaches t.root x) :
    x = t.root ∨ t.IsAbove t.root x := by
  induction hx with
  | refl => exact Or.inl rfl
  | tail _ hOwns ih =>
    rw [isAbove_of_parent? (h.parent?_of_owns hOwns)]
    exact Or.inr (ih.imp Eq.symm id)

/-! ## What a tree says of its document -/

/-- A scope shows a node: it has the bullet of the node, a scope for each child of the node, and a
scope for each node that the bullet refers to. -/
structure Shows (t : ScopeTree) (x : ScopeId) (r : ScopeRecord) (n : Node) : Prop where
  bullet : r.bullet = bulletOrLiteral n.value.toList
  children : List.Forall₂ (fun m c => t.arena.Stands c (some x) false m) n.children r.children
  references : AreFirstOccurrences (r.bullet.parts.flatMap Expr.references)
    (r.transcluded.map Prod.fst)
  referenced : ∀ e ∈ r.transcluded, t.arena.Stands e.2 (some x) true e.1
  owned_nodup : r.owned.Nodup

/-- A scope stands for the name of a node and for nothing else. -/
structure IsBlank (r : ScopeRecord) : Prop where
  parts : r.bullet.parts = []
  key : r.bullet.key = none
  children : r.children = []
  transcluded : r.transcluded = []
  named : r.named = []

/-- Scopes that lead from the root downward, each with the one before it as its parent. -/
structure IsPath (t : ScopeTree) (xs : List ScopeId) : Prop where
  head : xs.head? = some t.root
  chain : xs.IsChain fun p c => t.parent? c = some p

theorem IsPath.exists_last {xs : List ScopeId} (h : t.IsPath xs) : ∃ ys x, xs = ys ++ [x] := by
  rcases List.eq_nil_or_concat xs with rfl | ⟨ys, x, rfl⟩
  · cases h.head
  · exact ⟨ys, x, List.concat_eq_append⟩

theorem IsPath.of_append {ys : List ScopeId} (h : t.IsPath (ys ++ [p] ++ [x])) :
    t.IsPath (ys ++ [p]) ∧ t.parent? x = some p := by
  obtain ⟨hChain, -, hParent⟩ := List.isChain_append.mp h.chain
  have hHead := h.head
  rw [List.head?_append_of_ne_nil _ (by simp)] at hHead
  exact ⟨⟨hHead, hChain⟩, hParent p (by simp) x (by simp)⟩

/-- A tree is the unfolding of a document, cut where a node would stand below itself. -/
structure IsCycleCut (t : ScopeTree) (d : Document) : Prop where
  root : t.arena.Stands t.root none false d.root
  /-- There are no scopes beside those below the root. -/
  reached : ∀ x r, t.record? x = some r → x = t.root ∨ t.IsAbove t.root x
  placeholder_iff : ∀ x r, t.record? x = some r → (r.placeholder = true ↔
    (∃ p, t.IsAbove p x ∧ t.node? p = some r.node) ∨ d.node? r.node = none)
  blank : ∀ x r, t.record? x = some r → r.placeholder = true → IsBlank r
  shows : ∀ x r, t.record? x = some r → r.placeholder = false →
    ∃ n, d.node? r.node = some n ∧ t.Shows x r n
  path_nodup : ∀ xs, t.IsPath xs → ((xs.filter (!t.isPlaceholder ·)).filterMap t.node?).Nodup
  path_length : ∀ xs, t.IsPath xs → xs.length ≤ d.size + 1

theorem isBlank_of_linked {a : Arena ScopeRecord} (h : r.Linked a x) (hr : r.placeholder = true) :
    IsBlank r := by
  obtain ⟨hBullet, hChildren⟩ := h.blank hr
  have hKeys := h.keys
  rw [hBullet] at hKeys
  exact
    { parts := by rw [hBullet]; rfl
      key := by rw [hBullet]; rfl
      children := hChildren
      transcluded := List.map_eq_nil_iff.mp hKeys
      named := by rw [h.named, hChildren]; rfl }

namespace Unrolls

variable (h : t.Unrolls d)
include h

theorem placeholder_iff_pathOf (hr : t.record? x = some r) :
    r.placeholder = true ↔ r.node ∈ t.pathOf x ∨ d.node? r.node = none := by
  have hSpelled := h.rooted.spelled_at h.spelled hr
  by_cases hStop : r.node ∈ t.pathOf x ∨ d.node? r.node = none
  · rw [Document.unfold_eq_placeholder hStop] at hSpelled
    obtain ⟨s, hs, -, hPlaceholder, -⟩ := hSpelled
    obtain rfl := Option.some.inj (hs.symm.trans hr)
    exact iff_of_true hPlaceholder hStop
  · obtain ⟨hid, hn⟩ := not_or.mp hStop
    obtain ⟨n, hn⟩ := Option.ne_none_iff_exists'.mp hn
    rw [Document.unfold_eq_scope hid hn] at hSpelled
    obtain ⟨s, hs, -, hPlaceholder, -⟩ := hSpelled
    obtain rfl := Option.some.inj (hs.symm.trans hr)
    exact iff_of_false (by simp [hPlaceholder]) hStop

theorem exists_node_of_open (hr : t.record? x = some r) (hOpen : r.placeholder = false) :
    r.node ∉ t.pathOf x ∧ ∃ n, d.node? r.node = some n := by
  have hStop := (h.placeholder_iff_pathOf hr).not.mp (by simp [hOpen])
  rw [not_or] at hStop
  exact ⟨hStop.1, Option.ne_none_iff_exists'.mp hStop.2⟩

theorem shows_node (hr : t.record? x = some r) (hOpen : r.placeholder = false) :
    ∃ n, d.node? r.node = some n ∧ t.Shows x r n := by
  obtain ⟨hid, n, hn⟩ := h.exists_node_of_open hr hOpen
  have hLinked := h.rooted.linked x r hr
  have hSpelled := h.rooted.spelled_at h.spelled hr
  rw [Document.unfold_eq_scope hid hn] at hSpelled
  obtain ⟨s, hs, -, -, hBullet, hChildren, -⟩ := hSpelled
  obtain rfl := Option.some.inj (hs.symm.trans hr)
  refine ⟨n, hn, hBullet, ?_, ?_, hLinked.reference, hLinked.nodup⟩
  · have hNodes : List.Forall₂ (fun m c => ∃ s, t.record? c = some s ∧ s.node = m) n.children
        s.children := by
      have hNodes := List.forall₂_map_left_iff.mp hChildren.forall₂_node
      simp only [Document.node_unfold] at hNodes
      exact hNodes
    rw [List.forall₂_iff_zip] at hNodes ⊢
    refine ⟨hNodes.1, fun {m c} hMem => ?_⟩
    obtain ⟨q, hq, hNode⟩ := hNodes.2 hMem
    obtain ⟨q', hq', hParent, hChild⟩ := hLinked.child c (List.of_mem_zip hMem).2
    obtain rfl := Option.some.inj (hq.symm.trans hq')
    exact ⟨q, hq, hParent, hChild, hNode⟩
  · rw [hLinked.keys]
    exact areFirstOccurrences_eraseDups _

/-! ## Paths -/

theorem placeholder_of_owns (hr : t.record? p = some r) (hc : c ∈ r.owned) :
    r.placeholder = false := by
  rw [← Bool.not_eq_true]
  intro hPlaceholder
  have hBlank := isBlank_of_linked (h.rooted.linked p r hr) hPlaceholder
  rw [ScopeRecord.owned, hBlank.children, hBlank.transcluded] at hc
  cases hc

/-- A scope that owns another one is no placeholder, so its node is in the document and not above. -/
theorem pathOf_nodup (hx : t.arena.Reaches t.root x) :
    (t.pathOf x).Nodup ∧ ∀ n ∈ t.pathOf x, ∃ m, d.node? n = some m := by
  induction hx with
  | refl =>
    rw [h.rooted.pathOf_root]
    exact ⟨List.nodup_nil, by simp⟩
  | tail _ hOwns ih =>
    obtain ⟨r, hr, hc⟩ := hOwns
    obtain ⟨hid, hn⟩ := h.exists_node_of_open hr (h.placeholder_of_owns hr hc)
    rw [h.rooted.pathOf_of_owns hr hc, List.nodup_cons, List.forall_mem_cons]
    exact ⟨⟨hid, ih.1⟩, hn, ih.2⟩

theorem length_pathOf_le (hx : t.arena.Reaches t.root x) : (t.pathOf x).length ≤ d.size := by
  obtain ⟨hNodup, hNodes⟩ := h.pathOf_nodup hx
  have hSubset : t.pathOf x ⊆ d.nodes.map Node.id := by
    intro n hMem
    obtain ⟨m, hm⟩ := hNodes n hMem
    exact List.mem_map.mpr ⟨m, List.mem_of_find?_eq_some hm, Document.id_of_node? hm⟩
  have hLength := (hNodup.subperm hSubset).length_le
  rwa [List.length_map] at hLength

/-- A path comes down along the scopes above its end. -/
theorem of_isPath {ys : List ScopeId} (hPath : t.IsPath (ys ++ [x])) :
    (∃ r, t.record? x = some r) ∧ ys.map t.node? = (t.pathOf x).reverse.map some ∧
      ∀ y ∈ ys, t.isPlaceholder y = false := by
  induction ys using List.reverseRecOn generalizing x with
  | nil =>
    obtain rfl : x = t.root := Option.some.inj hPath.head
    obtain ⟨r, hr, -⟩ := h.rooted.root
    rw [h.rooted.pathOf_root]
    exact ⟨⟨r, hr⟩, rfl, by simp⟩
  | append_singleton zs p ih =>
    obtain ⟨hAbove, hParent⟩ := hPath.of_append
    obtain ⟨-, hNodes, hOpen⟩ := ih hAbove
    obtain ⟨s, hs, hParent⟩ := Option.bind_eq_some_iff.mp hParent
    obtain ⟨r, hr, hc⟩ := h.rooted.owns_of_parent hs hParent
    have hNode := node?_of_record? hr
    refine ⟨⟨s, hs⟩, ?_, ?_⟩
    · rw [h.rooted.pathOf_of_owns hr hc, List.map_append, hNodes, List.map_singleton, hNode,
        List.reverse_cons, List.map_append, List.map_singleton]
    · intro y hy
      rcases List.mem_append.mp hy with hy | hy
      · exact hOpen y hy
      · obtain rfl := List.mem_singleton.mp hy
        rw [isPlaceholder, record?, hr, Option.map_some, Option.getD_some,
          h.placeholder_of_owns hr hc]

/-- The scopes on a path but for its last one are open, and a last one that is open has a node that
is not above. -/
theorem path_nodup {xs : List ScopeId} (hPath : t.IsPath xs) :
    ((xs.filter (!t.isPlaceholder ·)).filterMap t.node?).Nodup := by
  obtain ⟨ys, x, rfl⟩ := hPath.exists_last
  obtain ⟨⟨r, hr⟩, hNodes, hOpen⟩ := h.of_isPath hPath
  obtain ⟨hNodup, -⟩ := h.pathOf_nodup (h.rooted.reached x r hr)
  have hAbove : (ys.filter (!t.isPlaceholder ·)).filterMap t.node? = (t.pathOf x).reverse := by
    rw [List.filter_eq_self.mpr fun y hy => by rw [hOpen y hy]; rfl]
    have hSome := congrArg (List.filterMap id) hNodes
    rwa [List.filterMap_map, List.filterMap_map, Function.id_comp, Function.id_comp,
      List.filterMap_some] at hSome
  have hNode := node?_of_record? hr
  rw [List.filter_append, List.filterMap_append, hAbove]
  cases hPlaceholder : t.isPlaceholder x with
  | true =>
    rw [List.filter_cons_of_neg (by simp [hPlaceholder]), List.filter_nil, List.filterMap_nil,
      List.append_nil, List.nodup_reverse]
    exact hNodup
  | false =>
    rw [List.filter_cons_of_pos (by simp [hPlaceholder]), List.filter_nil,
      List.filterMap_cons_some hNode, List.filterMap_nil, List.nodup_append_comm,
      List.singleton_append, List.nodup_cons, List.mem_reverse, List.nodup_reverse]
    rw [isPlaceholder, hr, Option.map_some, Option.getD_some] at hPlaceholder
    exact ⟨(h.exists_node_of_open hr hPlaceholder).1, hNodup⟩

theorem path_length {xs : List ScopeId} (hPath : t.IsPath xs) : xs.length ≤ d.size + 1 := by
  obtain ⟨ys, x, rfl⟩ := hPath.exists_last
  obtain ⟨⟨r, hr⟩, hNodes, -⟩ := h.of_isPath hPath
  have hLength := congrArg List.length hNodes
  have hBound := h.length_pathOf_le (h.rooted.reached x r hr)
  rw [List.length_map, List.length_map, List.length_reverse] at hLength
  rw [List.length_append, List.length_singleton]
  omega

theorem isCycleCut : t.IsCycleCut d where
  root := by
    obtain ⟨r, hr, hParent, hTransclusion⟩ := h.rooted.root
    obtain ⟨s, hs, hNode⟩ := h.spelled.node
    obtain rfl := Option.some.inj (hr.symm.trans hs)
    exact ⟨r, hr, hParent, hTransclusion, hNode.trans (d.node_unfold [] d.root)⟩
  reached x r hr := h.rooted.eq_root_or_isAbove (h.rooted.reached x r hr)
  placeholder_iff x r hr := by
    rw [h.placeholder_iff_pathOf hr, h.rooted.mem_pathOf_iff (h.rooted.reached x r hr)]
  blank x r hr := isBlank_of_linked (h.rooted.linked x r hr)
  shows x r := h.shows_node
  path_nodup _ := h.path_nodup
  path_length _ := h.path_length

end Unrolls

/-- The root of a document unfolds to exactly one blueprint. The tree that is built of the document
has the scopes of this blueprint, so it is cut where a node would stand below itself. -/
theorem build_cycleCut (d : Document) :
    ∃ b, (∀ b', d.Unfolds [] d.root b' ↔ b' = b) ∧ b.SpelledBy (build d).arena (build d).root ∧
      (build d).IsCycleCut d :=
  ⟨_, fun _ => Document.unfolds_iff, spelled_build d, (unrolls_build d).isCycleCut⟩

end ScopeTree

end FormulaOutline
