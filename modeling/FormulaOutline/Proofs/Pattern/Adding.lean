import FormulaOutline.Proofs.Document.Growth
import FormulaOutline.Proofs.Pattern.Applying

/-!
# What a pattern adds

A pattern adds a leaf at a scope where a formula is missing, beside or below the node of the scope.
As the leaves of one parent come in the order of their anchors, no leaf is put before or between what
has been added.

* `Pattern.Adds`: what is added at a scope, if something is missing there.
* `adds_iff`: it is what is planned.
* `Insertion.StandsIn`: a leaf stands in its reported place, beside or below its anchor.
* `standsIn_of_insert`: so it does when it has been put there.
* `StandsIn.insert`, `StandsIn.behind`: it is not moved by the leaves that come later.
-/

namespace FormulaOutline

open Formula Document ScopeTree

variable {p : Pattern} {t : ScopeTree} {d d' : Document} {x : ScopeId} {i : Insertion}
  {node parent id : NodeId} {index k : Nat} {placement : Placement} {formula : Expr}
  {added : List NodeId}

/-! ## What is missing at a scope -/

theorem mapM_eq_some_iff {α β : Type} {f : α → Option β} {l : List α} {l' : List β} :
    l.mapM f = some l' ↔ List.Forall₂ (fun a b => f a = some b) l l' := by
  induction l generalizing l' with
  | nil => simp [eq_comm]
  | cons a l ih =>
    rw [List.mapM_cons, List.forall₂_cons_left_iff]
    simp only [bind, Option.bind_eq_some_iff, pure, Option.some.injEq, ih]
    constructor
    · rintro ⟨b, hb, rest, hRest, rfl⟩
      exact ⟨b, rest, hb, hRest, rfl⟩
    · rintro ⟨b, rest, hb, hRest, rfl⟩
      exact ⟨b, hb, rest, hRest, rfl⟩

/-- The formula that a pattern makes at a scope. Every rule finds its argument. -/
def Pattern.Makes (p : Pattern) (t : ScopeTree) (x : ScopeId) (formula : Expr) : Prop :=
  ∃ args, formula = .call .none p.function args ∧
    List.Forall₂ (fun (e : Option String × Rule) (arg : Argument Expr) =>
      ∃ value, Pattern.argument? t x e.2 = some value ∧ arg = ⟨e.1, value, .none⟩) p.arguments args

theorem synthesize_eq_some_iff : p.synthesize t x = some formula ↔ p.Makes t x formula := by
  rw [Pattern.synthesize, Pattern.Makes]
  simp only [bind, Option.bind_eq_some_iff, mapM_eq_some_iff, Option.some.injEq]
  constructor
  · rintro ⟨args, hArgs, rfl⟩
    refine ⟨args, rfl, hArgs.imp ?_⟩
    intro e arg hSome
    obtain ⟨value, hValue, rfl⟩ := Option.map_eq_some_iff.mp hSome
    exact ⟨value, hValue, rfl⟩
  · rintro ⟨args, rfl, hArgs⟩
    refine ⟨args, hArgs.imp ?_, rfl⟩
    rintro e arg ⟨value, hValue, rfl⟩
    rw [hValue, Option.map_some]

/-- The place for a leaf: at the end of a node's children, or among its siblings right before or right
after it. -/
def Document.HasSlot (d : Document) (placement : Placement) (node parent : NodeId) (index : Nat) :
    Prop :=
  match placement with
  | .child => parent = node ∧ ∃ n, d.node? node = some n ∧ index = n.children.length
  | .above => ∃ n, d.node? parent = some n ∧ n.children[index]? = some node
  | .below => ∃ n k, d.node? parent = some n ∧ n.children[k]? = some node ∧ index = k + 1

theorem beside_eq_some_iff_getElem? (hd : d.Tidy) {offset : Nat} :
    Pattern.slot?.beside d node offset = some (parent, index) ↔
      ∃ n k, d.node? parent = some n ∧ n.children[k]? = some node ∧ index = k + offset := by
  rw [beside_eq_some_iff]
  constructor
  · rintro ⟨m, s, r, -, hm, hc, -, rfl⟩
    exact ⟨m, s.length, hm, by simp [hc], rfl⟩
  · rintro ⟨n, k, hn, hk, rfl⟩
    obtain ⟨hlt, hGet⟩ := List.getElem?_eq_some_iff.mp hk
    have hNodup := hd.forest.nodup parent n hn
    have hSplit : n.children = n.children.take k ++ node :: n.children.drop (k + 1) := by
      rw [← hGet, List.cons_getElem_drop_succ, List.take_append_drop]
    refine ⟨n, n.children.take k, n.children.drop (k + 1), ?_, hn, hSplit, ?_, ?_⟩
    · exact hd.parent?_eq_some_iff.mpr ⟨n, hn, List.mem_of_getElem? hk⟩
    · rw [hSplit, List.nodup_append] at hNodup
      exact fun hMem => hNodup.2.2 node hMem node List.mem_cons_self rfl
    · rw [List.length_take, Nat.min_eq_left (Nat.le_of_lt hlt)]

theorem slot?_eq_some_iff (hd : d.Tidy) :
    Pattern.slot? d placement node = some (parent, index) ↔ d.HasSlot placement node parent index := by
  cases placement with
  | child =>
    rw [Pattern.slot?, Option.map_eq_some_iff, HasSlot]
    constructor
    · rintro ⟨n, hn, hEq⟩
      cases hEq
      exact ⟨rfl, n, hn, rfl⟩
    · rintro ⟨rfl, n, hn, rfl⟩
      exact ⟨n, hn, rfl⟩
  | above =>
    rw [Pattern.slot?, beside_eq_some_iff_getElem? hd, HasSlot]
    simp
  | below => exact beside_eq_some_iff_getElem? hd

/-- What a pattern adds to a document at a scope: the scope is no placeholder, it has a value of the
anchor's type, it is not that of the example, every rule finds its argument, there is a place for the
formula, and no child there is an equivalent formula. -/
structure Pattern.Adds (p : Pattern) (t : ScopeTree) (d : Document) (x : ScopeId) (i : Insertion) :
    Prop where
  visible : t.isPlaceholder x = false
  node : t.node? x = some i.anchor
  other : i.anchor ≠ p.learnedFrom
  type : t.valueType? x = some p.anchor.type
  slot : d.HasSlot p.anchor.placement i.anchor i.parent i.index
  formula : ∃ formula, p.Makes t x formula ∧ Pattern.hasEquivalent d i.parent formula = false ∧
    i.text = (Expr.inline .none formula).pretty

/-- A leaf stands in its reported place with its text, directly beside its anchor or as its last
child. -/
structure Insertion.StandsIn (i : Insertion) (d : Document) (placement : Placement) : Prop where
  leaf : d.node? i.node = some ⟨i.node, i.text, []⟩
  place : ∃ n, d.node? i.parent = some n ∧ n.children[i.index]? = some i.node ∧
    match placement with
    | .child => i.parent = i.anchor ∧ n.children.getLast? = some i.node
    | .above => n.children[i.index + 1]? = some i.anchor
    | .below => ∃ k, i.index = k + 1 ∧ n.children[k]? = some i.anchor

theorem plan?_eq_some_iff : p.plan? t d x = some (formula, node, parent, index) ↔
    p.synthesize t x = some formula ∧ t.node? x = some node ∧
      Pattern.slot? d p.anchor.placement node = some (parent, index) ∧
      Pattern.hasEquivalent d parent formula = false := by
  constructor
  · intro hPlan
    obtain ⟨hFormula, hNode, hSlot⟩ := plan?_eq_some hPlan
    refine ⟨hFormula, hNode, hSlot, ?_⟩
    rw [Pattern.plan?, hFormula, hNode] at hPlan
    simp only [bind, Option.bind_some, hSlot] at hPlan
    split at hPlan
    · cases hPlan
    · rename_i hNone
      exact Bool.not_eq_true _ ▸ hNone
  · rintro ⟨hFormula, hNode, hSlot, hNone⟩
    rw [Pattern.plan?, hFormula, hNode]
    simp [hSlot, hNone]

/-- What is added at a scope is what is planned there. -/
theorem adds_iff (hd : d.Tidy) (hSite : x ∈ p.sites t) :
    p.Adds t d x i ↔ ∃ formula, p.plan? t d x = some (formula, i.anchor, i.parent, i.index) ∧
      i.text = (Expr.inline .none formula).pretty := by
  obtain ⟨-, hSite⟩ := List.mem_filter.mp hSite
  simp only [Bool.and_eq_true, Bool.not_eq_true', beq_iff_eq, bne_iff_ne] at hSite
  obtain ⟨⟨hVisible, hType⟩, hOther⟩ := hSite
  simp only [plan?_eq_some_iff, synthesize_eq_some_iff, slot?_eq_some_iff hd]
  constructor
  · rintro ⟨-, hNode, -, -, hSlot, formula, hMakes, hNone, hText⟩
    exact ⟨formula, ⟨hMakes, hNode, hSlot, hNone⟩, hText⟩
  · rintro ⟨formula, ⟨hMakes, hNode, hSlot, hNone⟩, hText⟩
    exact ⟨hVisible, hNode, fun hEq => hOther (hEq ▸ hNode), hType, hSlot, formula, hMakes, hNone,
      hText⟩

/-- Nothing is added at a scope that is no site. -/
theorem Pattern.Adds.mem_sites (h : p.Adds t d x i) (hx : x ∈ t.below false t.root) : x ∈ p.sites t := by
  refine List.mem_filter.mpr ⟨hx, ?_⟩
  have hOther : t.node? x ≠ some p.learnedFrom := by
    rw [h.node]
    exact fun hEq => h.other (Option.some.inj hEq)
  simp [h.visible, h.type, hOther]

/-! ## Leaves in their places -/

/-- Where two nodes have the same parent, the first one stands before the second one. -/
def Document.Ahead (d : Document) (a n : NodeId) : Prop :=
  a ≠ n ∧ ∀ q, d.HasChild q a → d.HasChild q n → d.Precedes q a n

theorem Document.Precedes.lt (hd : d.IsForest) {q a n : NodeId} {m : Node} {j k : Nat}
    (h : d.Precedes q a n) (hm : d.node? q = some m) (hj : m.children[j]? = some a)
    (hk : m.children[k]? = some n) : j < k := by
  obtain ⟨m', before, after, hm', hSplit, ha⟩ := h
  obtain rfl := Option.some.inj (hm.symm.trans hm')
  have hNodup := hd.nodup q m hm
  obtain ⟨j', hj'⟩ := List.mem_iff_getElem?.mp ha
  have hLess := (List.getElem?_eq_some_iff.mp hj').1
  have hFirst : m.children[j']? = some a := by
    rw [hSplit, List.getElem?_append_left hLess, hj']
  have hSecond : m.children[before.length]? = some n := by simp [hSplit]
  obtain rfl := (List.getElem?_inj (List.getElem?_eq_some_iff.mp hj).1 hNodup).mp (hj.trans hFirst.symm)
  obtain rfl := (List.getElem?_inj (List.getElem?_eq_some_iff.mp hk).1 hNodup).mp
    (hk.trans hSecond.symm)
  exact hLess

section Insert

variable {l : List NodeId} {a b : NodeId}

theorem getElem?_insert_of_lt (hk : l[k]? = some a) (hLess : k < index) :
    (l.take index ++ b :: l.drop index)[k]? = some a := by
  have hLength := (List.getElem?_eq_some_iff.mp hk).1
  rw [List.getElem?_append_left (by rw [List.length_take]; omega), List.getElem?_take_of_lt hLess, hk]

theorem getElem?_insert_self (hLe : index ≤ l.length) :
    (l.take index ++ b :: l.drop index)[index]? = some b := by
  rw [List.getElem?_append_right (by simp [hLe])]
  simp [hLe]

theorem getElem?_insert_succ (ha : l[index]? = some a) :
    (l.take index ++ b :: l.drop index)[index + 1]? = some a := by
  have hLength := (List.getElem?_eq_some_iff.mp ha).1
  rw [List.getElem?_append_right (by rw [List.length_take]; omega), List.length_take,
    Nat.min_eq_left (Nat.le_of_lt hLength), Nat.add_sub_cancel_left, List.getElem?_cons_succ,
    List.getElem?_drop, Nat.add_zero, ha]

end Insert

/-- A leaf is not moved by another one that is put behind it and its anchor. -/
theorem Insertion.StandsIn.insert (h : i.StandsIn d placement) (hGrows : d.Grows d' added)
    (hChildren : ∀ x n, d.node? x = some n → ∃ n', d'.node? x = some n' ∧ n'.children =
      if x = parent then n.children.take index ++ id :: n.children.drop index else n.children)
    (hNode : i.node ≠ parent)
    (hBehind : i.parent = parent → placement ≠ .child ∧ i.index + 1 < index) :
    i.StandsIn d' placement := by
  obtain ⟨n, hn, hIndex, hPlace⟩ := h.place
  obtain ⟨n', hn', hc⟩ := hChildren i.parent n hn
  refine ⟨?_, n', hn', ?_⟩
  · obtain ⟨leaf, hLeaf, hValue, -⟩ := hGrows.node?_old h.leaf
    obtain ⟨leaf', hLeaf', hNone⟩ := hChildren i.node _ h.leaf
    obtain rfl := Option.some.inj (hLeaf.symm.trans hLeaf')
    have hId := id_of_node? hLeaf
    rw [if_neg hNode] at hNone
    obtain ⟨id, value, children⟩ := leaf
    rw [hLeaf]
    simp only at hValue hNone hId
    rw [hValue, hNone, hId]
  · by_cases hParent : i.parent = parent
    · obtain ⟨hPlacement, hLess⟩ := hBehind hParent
      rw [hc, if_pos hParent]
      refine ⟨getElem?_insert_of_lt hIndex (by omega), ?_⟩
      cases placement with
      | child => exact (hPlacement rfl).elim
      | above => exact getElem?_insert_of_lt hPlace hLess
      | below =>
        obtain ⟨k, hk, hAnchor⟩ := hPlace
        exact ⟨k, hk, getElem?_insert_of_lt hAnchor (by omega)⟩
    · rw [hc, if_neg hParent]
      exact ⟨hIndex, hPlace⟩

/-- The place for a later leaf is behind the earlier ones and their anchors. -/
theorem Insertion.StandsIn.behind (hd : d.IsForest) (h : i.StandsIn d placement) {n : NodeId}
    (hAhead : d.Ahead i.anchor n) (hOther : n ≠ i.node) (hSlot : d.HasSlot placement n parent index)
    (hParent : i.parent = parent) : placement ≠ .child ∧ i.index + 1 < index := by
  obtain ⟨m, hm, hIndex, hPlace⟩ := h.place
  subst hParent
  have hLess : ∀ {j k}, m.children[j]? = some i.anchor → m.children[k]? = some n → j < k :=
    fun hj hk => (hAhead.2 i.parent ⟨m, hm, List.mem_of_getElem? hj⟩
      ⟨m, hm, List.mem_of_getElem? hk⟩).lt hd hm hj hk
  cases placement with
  | child => exact (hAhead.1 (hPlace.1.symm.trans hSlot.1)).elim
  | above =>
    obtain ⟨m', hm', hn⟩ := hSlot
    obtain rfl := Option.some.inj (hm.symm.trans hm')
    exact ⟨nofun, hLess hPlace hn⟩
  | below =>
    obtain ⟨m', k', hm', hn, rfl⟩ := hSlot
    obtain rfl := Option.some.inj (hm.symm.trans hm')
    obtain ⟨k, hk, hAnchor⟩ := hPlace
    have hBefore := hLess hAnchor hn
    have hNext : k' ≠ k + 1 := by
      rintro rfl
      rw [← hk, hIndex] at hn
      exact hOther (Option.some.inj hn).symm
    exact ⟨nofun, by omega⟩

theorem Document.HasSlot.hosts {n : NodeId} (h : d.HasSlot placement n parent index) :
    d.Hosts placement n parent := by
  cases placement with
  | child => exact h.1
  | above =>
    obtain ⟨m, hm, hn⟩ := h
    exact ⟨m, hm, List.mem_of_getElem? hn⟩
  | below =>
    obtain ⟨m, k, hm, hn, -⟩ := h
    exact ⟨m, hm, List.mem_of_getElem? hn⟩

/-- A new node has no children. -/
theorem Document.Grows.node?_new {text : String} (h : d.Grows d' [id])
    (hText : ∃ m, d'.node? id = some m ∧ m.value = text) : d'.node? id = some ⟨id, text, []⟩ := by
  obtain ⟨⟨id', value, children⟩, hm, hValue⟩ := hText
  have hId := id_of_node? hm
  have hNone : children = [] := by
    rw [List.eq_nil_iff_forall_not_mem]
    intro c hc
    have hChild : d'.HasChild id c := ⟨_, hm, hc⟩
    obtain rfl := List.mem_singleton.mp (h.below id (List.mem_singleton_self id) c hChild)
    exact h.tidy.forest.acyclic _ (.single hChild)
  simp only at hId hValue
  rw [hm, hId, hValue, hNone]

/-- A leaf that is put in its place stands there. -/
theorem standsIn_of_insert (hSlot : d.HasSlot placement i.anchor i.parent i.index)
    (hGrows : d.Grows d' [i.node]) (hText : ∃ m, d'.node? i.node = some m ∧ m.value = i.text)
    (hChildren : ∀ x n, d.node? x = some n → ∃ n', d'.node? x = some n' ∧ n'.children =
      if x = i.parent then n.children.take i.index ++ i.node :: n.children.drop i.index
      else n.children) : i.StandsIn d' placement := by
  have hParent : ∀ {n : Node}, d.node? i.parent = some n → ∃ n', d'.node? i.parent = some n' ∧
      n'.children = n.children.take i.index ++ i.node :: n.children.drop i.index := by
    intro n hn
    obtain ⟨n', hn', hc⟩ := hChildren i.parent n hn
    rw [if_pos rfl] at hc
    exact ⟨n', hn', hc⟩
  refine ⟨hGrows.node?_new hText, ?_⟩
  cases placement with
  | child =>
    obtain ⟨hSame, n, hn, hIndex⟩ := hSlot
    rw [← hSame] at hn
    obtain ⟨n', hn', hc⟩ := hParent hn
    refine ⟨n', hn', ?_, hSame, ?_⟩
    · rw [hc, getElem?_insert_self (Nat.le_of_eq hIndex)]
    · rw [hc, hIndex, List.drop_length, List.getLast?_concat]
  | above =>
    obtain ⟨n, hn, hAnchor⟩ := hSlot
    have hLess := (List.getElem?_eq_some_iff.mp hAnchor).1
    obtain ⟨n', hn', hc⟩ := hParent hn
    refine ⟨n', hn', ?_, ?_⟩
    · rw [hc, getElem?_insert_self (Nat.le_of_lt hLess)]
    · rw [hc]
      exact getElem?_insert_succ hAnchor
  | below =>
    obtain ⟨n, k, hn, hAnchor, hIndex⟩ := hSlot
    have hLess := (List.getElem?_eq_some_iff.mp hAnchor).1
    obtain ⟨n', hn', hc⟩ := hParent hn
    refine ⟨n', hn', ?_, k, hIndex, ?_⟩
    · rw [hc, getElem?_insert_self (by omega)]
    · rw [hc]
      exact getElem?_insert_of_lt hAnchor (by omega)

theorem Document.Grows.ahead (h : d.Grows d' added) {a n : NodeId} {m m' : Node}
    (ha : d.node? a = some m) (hn : d.node? n = some m') (hAhead : d.Ahead a n) : d'.Ahead a n :=
  ⟨hAhead.1, fun q hqa hqn => h.precedes (hAhead.2 q ((h.hasChild_iff (h.not_added ha)).mp hqa)
    ((h.hasChild_iff (h.not_added hn)).mp hqn))⟩

end FormulaOutline
