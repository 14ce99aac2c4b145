import FormulaOutline.Proofs.Document.Editing
import FormulaOutline.Proofs.Number.Text

/-!
# Documents that get new nodes

A new node is put somewhere among the children of another one. Everything else stays what it is, so
that the document without the new nodes is the old one. A node that is put into a document as a leaf can
be taken away again, and the nodes around it keep their order.

* `IdSupply.IsFresh`: the ids that a supply will give do not occur in a document.
* `Document.Grows`: a document is another one with new nodes.
* `Grows.hasChild_iff`, `Grows.node?_old`: old nodes keep their texts and their old children.
* `Tidy.grows_insert`: a document with one node more.
* `Document.without`: a document without some nodes.
* `Tidy.exists_insert`: a new node can be put below every other one.
* `Tidy.without_insert`: without its new node a document is what it was before.
* `Grows.precedes`: old nodes stand in their old order.
* `IdSupply.IsUnused`: the ids that a supply will give are those of no nodes.
-/

namespace FormulaOutline

/-- A node without those of its children that are listed. -/
def Node.withoutAll (n : Node) (ids : List NodeId) : Node :=
  { n with children := n.children.filter (· ∉ ids) }

theorem Node.withoutAll_append (n : Node) (ids ids' : List NodeId) :
    n.withoutAll (ids ++ ids') = (n.withoutAll ids').withoutAll ids := by
  simp [withoutAll, List.filter_filter]

namespace IdSupply

theorem nameOf_eq : ∃ start : String, start.length = 24 ∧ ∀ n, nameOf n = start ++ String.ofList
    (List.replicate (12 - (Number.digitsOf n).length) '0' ++ Number.digitsOf n) :=
  ⟨_, rfl, fun _ => rfl⟩

theorem nameOf_injective {i k : Nat} (h : nameOf i = nameOf k) : i = k := by
  obtain ⟨start, -, hStart⟩ := nameOf_eq
  have hDigits := congrArg String.toList h
  simp only [hStart, String.toList_append, String.toList_ofList] at hDigits
  have hValue := congrArg Number.ofDigits (List.append_cancel_left hDigits)
  rwa [Number.ofDigits_zeros_before, Number.ofDigits_zeros_before, Number.ofDigits_digitsOf,
    Number.ofDigits_digitsOf] at hValue

/-- The ids that a supply will give do not occur in a document, neither as nodes nor as children nor
in texts. -/
def IsFresh (s : IdSupply) (d : Document) : Prop :=
  ∀ k, s.issued < k →
    nameOf k ≠ d.root ∧ d.node? (nameOf k) = none ∧ ∀ x, ¬ d.Leads x (nameOf k)

theorem length_nameOf (n : Nat) : 24 ≤ (nameOf n).length := by
  obtain ⟨start, hLength, hStart⟩ := nameOf_eq
  rw [hStart, String.length_append, hLength]
  exact Nat.le_add_right _ _

/-- An id is fresh in a document whose ids are shorter. -/
theorem isFresh_of_length {s : IdSupply} {d : Document}
    (h : ∀ id ∈ d.root :: d.nodes.flatMap (fun m => m.id :: (m.children ++
      (Formula.bulletOrLiteral m.value.toList).referencedIds)), id.length < 24) : s.IsFresh d := by
  intro k _
  have hNot : ∀ id, id.length < 24 → nameOf k ≠ id := by
    rintro _ hShort rfl
    exact Nat.not_lt.mpr (length_nameOf k) hShort
  rw [List.forall_mem_cons] at h
  refine ⟨hNot _ h.1, ?_, ?_⟩
  · rw [Document.node?, List.find?_eq_none]
    intro m hm hId
    refine hNot _ (h.2 m.id (List.mem_flatMap.mpr ⟨m, hm, by simp⟩)) ?_
    exact (beq_iff_eq.mp hId).symm
  · rintro x ⟨m, hm, hLeads⟩
    have hMem := List.mem_of_find?_eq_some hm
    exact hNot _ (h.2 _ (List.mem_flatMap.mpr ⟨m, hMem, by simpa using Or.inr hLeads⟩)) rfl

end IdSupply

namespace Document

open Relation

variable {d d' d'' : Document} {added added' : List NodeId} {p c x id : NodeId} {index : Nat}

/-- A document is another one with new nodes: below a new node there are new nodes only, and without
the new nodes the document is the old one. -/
structure Grows (d d' : Document) (added : List NodeId) : Prop where
  tidy : d'.Tidy
  root : d'.root = d.root
  old : ∀ x, x ∉ added → (d'.node? x).map (·.withoutAll added) = d.node? x
  new : ∀ x ∈ added, d.node? x = none
  below : ∀ x ∈ added, ∀ c, d'.HasChild x c → c ∈ added

theorem Grows.refl (hd : d.Tidy) : d.Grows d [] where
  tidy := hd
  root := rfl
  old := by
    intro x _
    have hSame : ∀ n : Node, n.withoutAll [] = n := by simp [Node.withoutAll]
    simp [hSame]
  new := by simp
  below := by simp

theorem Grows.hasChild_iff (h : d.Grows d' added) (hc : c ∉ added) :
    d'.HasChild p c ↔ d.HasChild p c := by
  constructor
  · intro hChild
    have hp : p ∉ added := fun hp => hc (h.below p hp c hChild)
    obtain ⟨n, hn, hMem⟩ := hChild
    have hOld := h.old p hp
    rw [hn, Option.map_some] at hOld
    exact ⟨_, hOld.symm, List.mem_filter.mpr ⟨hMem, by simpa using hc⟩⟩
  · rintro ⟨n, hn, hMem⟩
    have hp : p ∉ added := fun hp => by
      rw [h.new p hp] at hn
      cases hn
    have hOld := h.old p hp
    rw [hn] at hOld
    obtain ⟨n', hn', rfl⟩ := Option.map_eq_some_iff.mp hOld
    exact ⟨n', hn', (List.mem_filter.mp hMem).1⟩

theorem Grows.trans (h : d.Grows d' added) (h' : d'.Grows d'' added') :
    d.Grows d'' (added ++ added') where
  tidy := h'.tidy
  root := h'.root.trans h.root
  old := by
    intro x hx
    rw [List.mem_append, not_or] at hx
    rw [← h.old x hx.1, ← h'.old x hx.2, Option.map_map]
    congr 1
    funext n
    exact n.withoutAll_append added added'
  new := by
    intro x hx
    rcases List.mem_append.mp hx with hx | hx
    · exact h.new x hx
    · by_cases hMem : x ∈ added
      · exact h.new x hMem
      · rw [← h.old x hMem, h'.new x hx, Option.map_none]
  below := by
    intro x hx c hChild
    rw [List.mem_append]
    by_cases hc : c ∈ added'
    · exact Or.inr hc
    · have hx' : x ∉ added' := fun hx' => hc (h'.below x hx' c hChild)
      have hx := (List.mem_append.mp hx).resolve_right hx'
      exact Or.inl (h.below x hx c ((h'.hasChild_iff hc).mp hChild))

/-! ## Old nodes -/

section Old

variable (h : d.Grows d' added)
include h

theorem Grows.not_added {n : Node} (hn : d.node? x = some n) : x ∉ added := by
  intro hx
  rw [h.new x hx] at hn
  cases hn

theorem Grows.node?_old {n : Node} (hn : d.node? x = some n) :
    ∃ n', d'.node? x = some n' ∧ n'.value = n.value ∧ n'.children.filter (· ∉ added) = n.children := by
  have hOld := h.old x (h.not_added hn)
  rw [hn] at hOld
  obtain ⟨n', hn', rfl⟩ := Option.map_eq_some_iff.mp hOld
  exact ⟨n', hn', rfl, rfl⟩

/-- No old node had one of the new ones as a child. -/
theorem Grows.child_not_added (hChild : d.HasChild p c) : c ∉ added := by
  obtain ⟨n, hn, hMem⟩ := hChild
  obtain ⟨n', -, -, hChildren⟩ := h.node?_old hn
  rw [← hChildren] at hMem
  simpa using (List.mem_filter.mp hMem).2

end Old

/-! ## One new node -/

/-- A new node is put among the children of another one. -/
theorem Tidy.grows_insert (hd : d.Tidy) {text : String} (hNew : d.node? id = none)
    (hChild : ∀ p, ¬ d.HasChild p id) (h : (d.createNode id text).insertChild p index id = .ok d') :
    d.Grows d' [id] ∧ (∃ m, d'.node? id = some m ∧ m.value = text) ∧
      ∀ x n, d.node? x = some n → ∃ n', d'.node? x = some n' ∧ n'.children =
        if x = p then n.children.take index ++ id :: n.children.drop index else n.children := by
  have hContains : d.contains id = false := by
    rw [← Bool.not_eq_true, contains_iff, hNew]
    simp
  have hTidy : (d.createNode id text).Tidy := (hd.append hContains text).bump
  have hNode := fun x => hTidy.node?_insert (x := x) h
  have hCreated : ∀ x, (d.createNode id text).node? x =
      (d.node? x).or (if id = x then some ⟨id, text, []⟩ else none) := node?_append id text
  have hOthers : ∀ x n, d.node? x = some n → n.children.filter (· != id) = n.children := by
    intro x n hn
    rw [List.filter_eq_self]
    intro c hc
    rw [bne_iff_ne]
    rintro rfl
    exact hChild x ⟨n, hn, hc⟩
  have hOld : ∀ x, x ≠ id → d'.node? x = (d.node? x).map (·.afterInsert p index id) := by
    intro x hx
    rw [hNode, hCreated, if_neg (Ne.symm hx), Option.or_none]
  have hSelf : d'.node? id = some ((⟨id, text, []⟩ : Node).afterInsert p index id) := by
    rw [hNode, hCreated, hNew, Option.none_or, if_pos rfl, Option.map_some]
  refine ⟨⟨hTidy.insertChild h, (insert_frame h).1, ?_, ?_, ?_⟩, ?_, ?_⟩
  · intro x hx
    rw [hOld x (by simpa using hx)]
    cases hn : d.node? x with
    | none => rfl
    | some n =>
      have hSame : n.children.filter (· ∉ [id]) = n.children := by simpa using hOthers x n hn
      rw [Option.map_some, Option.map_some, Option.some.injEq, Node.afterInsert, hOthers x n hn,
        Node.withoutAll]
      split
      · rw [insertIdx_min, List.filter_append, List.filter_cons_of_neg (by simp),
          ← List.filter_append, List.take_append_drop, hSame]
      · rw [hSame]
  · simpa using hNew
  · intro x hx c hc
    obtain rfl : x = id := by simpa using hx
    obtain ⟨m, hm, hMem⟩ := hc
    rw [hSelf] at hm
    obtain rfl := Option.some.inj hm
    simp only [Node.afterInsert] at hMem
    split at hMem
    · simpa using hMem
    · cases hMem
  · exact ⟨_, hSelf, rfl⟩
  · intro x n hn
    have hne : x ≠ id := by
      rintro rfl
      rw [hNew] at hn
      cases hn
    refine ⟨n.afterInsert p index id, by rw [hOld x hne, hn, Option.map_some], ?_⟩
    simp only [Node.afterInsert, id_of_node? hn, hOthers x n hn, insertIdx_min]

end Document

/-! ## New leaves -/

/-- The ids that a supply will give are neither those of nodes of a document nor those of children. -/
def IdSupply.IsUnused (s : IdSupply) (d : Document) : Prop :=
  ∀ k, s.issued < k → d.node? (nameOf k) = none ∧ ∀ q, ¬ d.HasChild q (nameOf k)

theorem IdSupply.IsFresh.isUnused {s : IdSupply} {d : Document} (h : s.IsFresh d) : s.IsUnused d := by
  intro k hk
  obtain ⟨-, hNone, hLeads⟩ := h k hk
  exact ⟨hNone, fun q hChild => hLeads q (hChild.imp fun _ hn => ⟨hn.1, Or.inl hn.2⟩)⟩

namespace Document

variable {d d' : Document} {ids ids' added : List NodeId} {p q c id : NodeId} {index : Nat}

/-- A document without some nodes, which are no children any more. -/
def without (d : Document) (ids : List NodeId) : Document :=
  { d with nodes := (d.nodes.filter (·.id ∉ ids)).map (·.withoutAll ids) }

theorem without_append (d : Document) (ids ids' : List NodeId) :
    d.without (ids ++ ids') = (d.without ids').without ids := by
  have hFilter : d.nodes.filter (fun n => n.id ∉ ids ++ ids') =
      (d.nodes.filter (fun n => n.id ∉ ids')).filter fun n => n.id ∉ ids := by
    rw [List.filter_filter]
    refine List.filter_congr fun n _ => ?_
    simp
  have hMap : (fun n : Node => n.withoutAll (ids ++ ids')) =
      (fun n => n.withoutAll ids) ∘ fun n => n.withoutAll ids' := by
    funext n
    exact n.withoutAll_append ids ids'
  simp only [without, hFilter, hMap, ← List.map_map, List.filter_map]
  rfl

theorem without_nil (d : Document) : d.without [] = d := by
  have hSame : ∀ n : Node, n.withoutAll [] = n := by simp [Node.withoutAll]
  simp [without, hSame]

/-- A new node can be put below every other one. -/
theorem Tidy.exists_insert (hd : d.Tidy) (hNew : d.node? id = none) (hParent : ∃ n, d.node? p = some n)
    (text : String) (index : Nat) : ∃ d', (d.createNode id text).insertChild p index id = .ok d' := by
  have hContains : d.contains id = false := by
    rw [← Bool.not_eq_true, contains_iff, hNew]
    simp
  have hTidy : (d.createNode id text).Tidy := (hd.append hContains text).bump
  have hNode : ∀ x, (d.createNode id text).node? x =
      (d.node? x).or (if id = x then some ⟨id, text, []⟩ else none) := node?_append id text
  obtain ⟨n, hn⟩ := hParent
  have hLeaf : (d.createNode id text).node? id = some ⟨id, text, []⟩ := by
    rw [hNode, hNew, Option.none_or, if_pos rfl]
  refine (hTidy.insertChild_eq_ok_iff index).mpr
    ⟨contains_iff.mpr ⟨n, by rw [hNode, hn, Option.some_or]⟩, contains_iff.mpr ⟨_, hLeaf⟩, ?_⟩
  intro hReaches
  rcases Relation.ReflTransGen.cases_head hReaches with rfl | ⟨c, ⟨m, hm, hMem⟩, -⟩
  · rw [hNew] at hn
    cases hn
  · obtain rfl := Option.some.inj (hLeaf.symm.trans hm)
    cases hMem

/-- A change of nodes is undone along with a leaf. -/
theorem nodes_undone {nodes : List Node} {leaf : Node} {f : Node → Node}
    (hKept : ∀ n, (f n).id = n.id) (hIds : ∀ n ∈ nodes, n.id ≠ leaf.id)
    (hUndone : ∀ n ∈ nodes, (f n).withoutAll [leaf.id] = n) :
    (((nodes ++ [leaf]).map f).filter (·.id ∉ [leaf.id])).map (·.withoutAll [leaf.id]) = nodes := by
  have hOld : (nodes.map f).filter (·.id ∉ [leaf.id]) = nodes.map f := by
    rw [List.filter_eq_self]
    intro n hn
    obtain ⟨m, hm, rfl⟩ := List.mem_map.mp hn
    simpa [hKept] using hIds m hm
  have hSame : nodes.map (fun n => (f n).withoutAll [leaf.id]) = nodes := by
    conv_rhs => rw [← List.map_id nodes]
    exact List.map_congr_left hUndone
  rw [List.map_append, List.filter_append, hOld, List.map_singleton,
    List.filter_cons_of_neg (by simp [hKept]), List.filter_nil, List.append_nil, List.map_map]
  exact hSame

/-- Without its new node a document is what it was before. -/
theorem Tidy.without_insert (hd : d.Tidy) {text : String} (hNew : d.node? id = none)
    (hChild : ∀ q, ¬ d.HasChild q id)
    (h : (d.createNode id text).insertChild p index id = .ok d') :
    d'.without [id] = { d with version := d'.version } := by
  have hIds : ∀ n ∈ d.nodes, n.id ≠ id := by
    rintro n hn rfl
    rw [node?_of_mem hd.ids hn] at hNew
    cases hNew
  have hChildren : ∀ n ∈ d.nodes, id ∉ n.children := fun n hn hMem =>
    hChild n.id ⟨n, node?_of_mem hd.ids hn, hMem⟩
  have hParent : (d.createNode id text).parent? id = none := by
    rw [parent?, Option.map_eq_none_iff, List.find?_eq_none]
    intro n hn
    rcases List.mem_append.mp hn with hn | hn
    · simpa using hChildren n hn
    · obtain rfl := List.mem_singleton.mp hn
      simp
  -- What the insertion does to an old node is undone.
  have hUndone : ∀ n ∈ d.nodes,
      (if n.id = p then n.withChild index id else n).withoutAll [id] = n := by
    intro n hn
    have hSame : n.children.filter (· ∉ [id]) = n.children := by
      rw [List.filter_eq_self]
      intro c hc
      rw [decide_eq_true_eq, List.mem_singleton]
      exact fun hEq => hChildren n hn (hEq ▸ hc)
    split
    · rw [Node.withoutAll, Node.withChild, List.filter_append, List.filter_cons_of_neg (by simp),
        ← List.filter_append, List.take_append_drop, hSame]
    · rw [Node.withoutAll, hSame]
  have hKept : ∀ n : Node, (if n.id = p then n.withChild index id else n).id = n.id := by
    intro n
    split <;> rfl
  obtain ⟨-, -, rfl⟩ := insertChild_eq_ok h
  have hNodes := @nodes_undone d.nodes ⟨id, text, []⟩ _ hKept hIds hUndone
  rw [Document.detach, hParent]
  exact congrArg (fun nodes => ({ d with nodes, version := d.version + 1 + 1 } : Document)) hNodes

/-- Old nodes stand in their old order. -/
theorem Grows.precedes (h : d.Grows d' added) (hPrecedes : d.Precedes p q c) : d'.Precedes p q c := by
  obtain ⟨n, before, after, hn, hSplit, hq⟩ := hPrecedes
  obtain ⟨n', hn', -, hChildren⟩ := h.node?_old hn
  rw [hSplit, List.filter_eq_append_iff] at hChildren
  obtain ⟨l, r, hSplit', rfl, hRight⟩ := hChildren
  obtain ⟨s, r, rfl, -, -, -⟩ := List.filter_eq_cons_iff.mp hRight
  exact ⟨n', l ++ s, r, hn', by rw [hSplit', List.append_assoc],
    List.mem_append_left s (List.mem_of_mem_filter hq)⟩

end Document

end FormulaOutline
