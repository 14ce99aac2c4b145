import FormulaOutline.Document.Outline
import FormulaOutline.Scope.Blueprint
import Mathlib.Data.List.Chain
import Mathlib.Data.List.Nodup
import Mathlib.Data.List.Perm.Subperm
import Mathlib.Logic.Relation

/-!
# Documents stay forests

Every operation on documents keeps them forests: a child is taken from its parent before it gets
another one, and it is not put below itself.

* `Document.IsForest`: every node has its place below at most one other node.
* `IsWay`: the nodes on the way from the root down to a node.
* `LeadsAround`: a node leads to another one by children and references without passing some nodes.
* `leadsAround_cases`: such a path can be taken so that it does not come back to its start.
* `Made`: the documents that operations make from a single root.
* `hasChild_insertChild`: what an insertion does to the relation of parents and children.
* `Made.isForest`: all of them are forests.
-/

namespace FormulaOutline.Document

open Relation

/-! ## Forests -/

/-- A node has another one among its children. -/
def HasChild (d : Document) (p c : NodeId) : Prop := ∃ n, d.node? p = some n ∧ c ∈ n.children

/-- A node has another one among its children or refers to it. -/
def Leads (d : Document) (x y : NodeId) : Prop :=
  ∃ n, d.node? x = some n ∧
    (y ∈ n.children ∨ y ∈ (Formula.bulletOrLiteral n.value.toList).referencedIds)

/-- No node is twice a child, and none is below itself. -/
structure IsForest (d : Document) : Prop where
  nodup : ∀ p n, d.node? p = some n → n.children.Nodup
  parent_unique : ∀ p q c, d.HasChild p c → d.HasChild q c → p = q
  acyclic : ∀ x, ¬ TransGen d.HasChild x x

/-- The nodes on the way from the root down to a node, both of them included. -/
structure IsWay (d : Document) (way : List NodeId) (n : NodeId) : Prop where
  head : way.head? = some d.root
  last : way.getLast? = some n
  chain : way.IsChain d.HasChild

/-- One child of a node stands before another one. -/
def Precedes (d : Document) (p s c : NodeId) : Prop :=
  ∃ n before after, d.node? p = some n ∧ n.children = before ++ c :: after ∧ s ∈ before

/-- A node leads to another one, directly or through others, none of which is to be avoided. -/
def LeadsAround (d : Document) (avoid : List NodeId) (x y : NodeId) : Prop :=
  x ∉ avoid ∧ ReflTransGen (fun u v => d.Leads u v ∧ v ∉ avoid) x y

/-! ## Ways around nodes -/

section Around

variable {d : Document} {avoid avoid' : List NodeId} {x y z : NodeId}

theorem LeadsAround.mono (h : d.LeadsAround avoid x y) (hsub : ∀ z ∈ avoid', z ∈ avoid) :
    d.LeadsAround avoid' x y :=
  ⟨fun hx => h.1 (hsub x hx),
    ReflTransGen.mono (fun _ v huv => ⟨huv.1, fun hv => huv.2 (hsub v hv)⟩) _ _ h.2⟩

theorem leadsAround_congr (h : ∀ z, z ∈ avoid ↔ z ∈ avoid') :
    d.LeadsAround avoid x y ↔ d.LeadsAround avoid' x y :=
  ⟨fun hlead => hlead.mono fun z => (h z).mpr, fun hlead => hlead.mono fun z => (h z).mp⟩

theorem LeadsAround.head (hxy : d.Leads x y) (hx : x ∉ avoid) (h : d.LeadsAround avoid y z) :
    d.LeadsAround avoid x z :=
  ⟨hx, ReflTransGen.head ⟨hxy, h.1⟩ h.2⟩

/-- Where a path passes a node, there is a shorter one from the node's successor. -/
theorem leadsAround_split (h : d.LeadsAround avoid x y) (z : NodeId) : z = y ∨
    d.LeadsAround (z :: avoid) x y ∨ ∃ c, d.Leads z c ∧ d.LeadsAround (z :: avoid) c y := by
  obtain ⟨hx, hpath⟩ := h
  induction hpath using ReflTransGen.head_induction_on with
  | refl =>
    by_cases hz : z = y
    · exact Or.inl hz
    · exact Or.inr (Or.inl ⟨by simp [Ne.symm hz, hx], .refl⟩)
  | @head u v huv _ ih =>
    rcases ih huv.2 with hz | hv | hc
    · exact Or.inl hz
    · by_cases hz : z = u
      · subst hz
        exact Or.inr (Or.inr ⟨v, huv.1, hv⟩)
      · exact Or.inr (Or.inl (hv.head huv.1 (by simp [Ne.symm hz, hx])))
    · exact Or.inr (Or.inr hc)

/-- A path to another node leaves its start for good with one of its steps. -/
theorem leadsAround_cases (h : d.LeadsAround avoid x y) :
    x = y ∨ ∃ c, d.Leads x c ∧ d.LeadsAround (x :: avoid) c y := by
  rcases leadsAround_split h x with he | hx | hc
  · exact Or.inl he
  · exact (hx.1 List.mem_cons_self).elim
  · exact Or.inr hc

/-- A node leads to itself, and to what its successors lead to without coming back to it. -/
theorem leadsAround_iff {n : Node} (hn : d.node? x = some n) (hx : x ∉ avoid) :
    d.LeadsAround avoid x y ↔ x = y ∨ (∃ c ∈ n.children, d.LeadsAround (x :: avoid) c y) ∨
      ∃ c ∈ (Formula.bulletOrLiteral n.value.toList).referencedIds,
        d.LeadsAround (x :: avoid) c y := by
  have hback : ∀ c, d.Leads x c → d.LeadsAround (x :: avoid) c y → d.LeadsAround avoid x y :=
    fun c hc h => (h.mono fun z hz => List.mem_cons_of_mem _ hz).head hc hx
  constructor
  · intro h
    rcases leadsAround_cases h with hxy | ⟨c, ⟨m, hm, hc⟩, hlead⟩
    · exact Or.inl hxy
    · obtain rfl : n = m := Option.some.inj (hn.symm.trans hm)
      rcases hc with hc | hc
      · exact Or.inr (Or.inl ⟨c, hc, hlead⟩)
      · exact Or.inr (Or.inr ⟨c, hc, hlead⟩)
  · rintro (rfl | ⟨c, hc, h⟩ | ⟨c, hc, h⟩)
    · exact ⟨hx, .refl⟩
    · exact hback c ⟨n, hn, Or.inl hc⟩ h
    · exact hback c ⟨n, hn, Or.inr hc⟩ h

/-- A node that is missing or to be avoided leads to no other node. -/
theorem not_leadsAround (h : x ∈ avoid ∨ d.node? x = none) (hy : d.node? y ≠ none) :
    ¬ d.LeadsAround avoid x y := by
  intro hlead
  have hx := h.resolve_left hlead.1
  rcases leadsAround_cases hlead with rfl | ⟨c, ⟨m, hm, -⟩, -⟩
  · exact hy hx
  · rw [hx] at hm
    cases hm

/-- The nodes that a way below other nodes has left. -/
def room (d : Document) (path : List NodeId) : Nat :=
  d.nodes.countP fun n => !path.contains n.id

theorem room_le (d : Document) (path : List NodeId) : d.room path ≤ d.size :=
  List.countP_le_length

/-- Going on to another node of the document leaves less room. -/
theorem room_cons_lt {path : List NodeId} {n : Node} (hn : d.node? x = some n) (hx : x ∉ path) :
    d.room (x :: path) < d.room path := by
  have hmem := List.mem_of_find?_eq_some hn
  have hid : n.id = x := by simpa using List.find?_some hn
  obtain ⟨before, after, hnodes⟩ := List.append_of_mem hmem
  have hle : ∀ l : List Node, l.countP (fun m => !(x :: path).contains m.id) ≤
      l.countP fun m => !path.contains m.id := by
    intro l
    refine List.countP_mono_left fun m _ hm => ?_
    simp only [List.contains_cons, Bool.not_or, Bool.and_eq_true] at hm
    exact hm.2
  have hin : (!(x :: path).contains n.id) = false := by simp [hid]
  have hout : (!path.contains n.id) = true := by simpa [hid] using hx
  have hbefore := hle before
  have hafter := hle after
  rw [room, room, hnodes, List.countP_append, List.countP_append, List.countP_cons,
    List.countP_cons, hin, hout]
  simp only [Bool.false_eq_true, if_false, if_true]
  omega

end Around

/-! ## Ways from the root -/

section Way

variable {d : Document} {way : List NodeId} {n : NodeId}

theorem transGen_of_isChain {p : NodeId} {rest : List NodeId} (h : (p :: rest).IsChain d.HasChild) :
    ∀ c ∈ rest, TransGen d.HasChild p c := by
  induction rest generalizing p with
  | nil => simp
  | cons c rest ih =>
    obtain ⟨hpc, hrest⟩ := List.isChain_cons_cons.mp h
    intro x hx
    rcases List.mem_cons.mp hx with rfl | hx
    · exact .single hpc
    · exact .head hpc (ih hrest x hx)

/-- A way does not come back to a node. -/
theorem nodup_of_isChain (hd : d.IsForest) (h : way.IsChain d.HasChild) : way.Nodup := by
  induction way with
  | nil => exact List.nodup_nil
  | cons p rest ih =>
    refine List.nodup_cons.mpr ⟨fun hp => ?_, ih h.tail⟩
    exact hd.acyclic p (transGen_of_isChain h p hp)

end Way

/-! ## Changes of single nodes -/

variable {d d' : Document} {p q c x : NodeId}

theorem node?_update {f : Node → Node} (hf : ∀ n, (f n).id = n.id) (id x : NodeId) :
    (d.update id f).node? x = (d.node? x).map fun n => if n.id = id then f n else n := by
  rw [node?, node?, update, List.find?_map]
  congr 2
  funext n
  by_cases hn : n.id = id <;> simp [hn, hf]

theorem ids_update {f : Node → Node} (hf : ∀ n, (f n).id = n.id) (id : NodeId) :
    (d.update id f).nodes.map Node.id = d.nodes.map Node.id := by
  rw [update, List.map_map]
  refine List.map_congr_left fun n _ => ?_
  by_cases hn : n.id = id <;> simp [hn, hf]

theorem id_of_node? {n : Node} (h : d.node? x = some n) : n.id = x := by
  simpa using List.find?_some h

theorem hasChild_update {f : Node → Node} (hf : ∀ n, (f n).id = n.id) :
    (d.update q f).HasChild p c ↔
      ∃ n, d.node? p = some n ∧ c ∈ (if p = q then f n else n).children := by
  rw [HasChild, node?_update hf]
  constructor
  · rintro ⟨m, hm, hc⟩
    obtain ⟨n, hn, rfl⟩ := Option.map_eq_some_iff.mp hm
    rw [id_of_node? hn] at hc
    exact ⟨n, hn, hc⟩
  · rintro ⟨n, hn, hc⟩
    refine ⟨_, by rw [hn, Option.map_some], ?_⟩
    rwa [id_of_node? hn]

/-! ## The invariant -/

/-- A forest whose nodes have different ids. -/
structure Tidy (d : Document) : Prop where
  ids : (d.nodes.map Node.id).Nodup
  forest : d.IsForest

theorem node?_of_mem (hd : (d.nodes.map Node.id).Nodup) {n : Node} (hn : n ∈ d.nodes) :
    d.node? n.id = some n := by
  rw [node?]
  generalize d.nodes = nodes at hd hn
  induction nodes with
  | nil => cases hn
  | cons m rest ih =>
    rw [List.map_cons, List.nodup_cons] at hd
    rw [List.find?_cons]
    rcases List.mem_cons.mp hn with rfl | hn
    · simp
    · have hne : (m.id == n.id) = false := by
        rw [beq_eq_false_iff_ne]
        exact fun he => hd.1 (he ▸ List.mem_map_of_mem hn)
      rw [hne]
      exact ih hd.2 hn

theorem Tidy.parent?_eq_some_iff (hd : d.Tidy) : d.parent? c = some p ↔ d.HasChild p c := by
  have hsound : ∀ {p}, d.parent? c = some p → d.HasChild p c := by
    intro p h
    obtain ⟨n, hn, rfl⟩ := Option.map_eq_some_iff.mp h
    exact ⟨n, node?_of_mem hd.ids (List.mem_of_find?_eq_some hn), by
      simpa using List.find?_some hn⟩
  refine ⟨hsound, fun h => ?_⟩
  obtain ⟨n, hn, hc⟩ := h
  cases hp : d.parent? c with
  | none =>
    rw [parent?, Option.map_eq_none_iff, List.find?_eq_none] at hp
    exact (hp n (List.mem_of_find?_eq_some hn) (by simpa using hc)).elim
  | some q => rw [hd.forest.parent_unique q p c (hsound hp) ⟨n, hn, hc⟩]

/-- With fewer children a forest stays one. -/
theorem IsForest.of_sublist (hd : d.IsForest)
    (hsub : ∀ x n', d'.node? x = some n' →
      ∃ n, d.node? x = some n ∧ n'.children.Sublist n.children) : d'.IsForest := by
  have hchild : ∀ {p c}, d'.HasChild p c → d.HasChild p c := by
    rintro p c ⟨n', hn', hc⟩
    obtain ⟨n, hn, hs⟩ := hsub p n' hn'
    exact ⟨n, hn, hs.subset hc⟩
  refine ⟨?_, ?_, ?_⟩
  · intro x n' hn'
    obtain ⟨n, hn, hs⟩ := hsub x n' hn'
    exact (hd.nodup x n hn).sublist hs
  · exact fun p q c hp hq => hd.parent_unique p q c (hchild hp) (hchild hq)
  · exact fun x hx => hd.acyclic x (TransGen.mono (fun _ _ => hchild) _ _ hx)

theorem Tidy.update_of_sublist (hd : d.Tidy) {f : Node → Node} (hf : ∀ n, (f n).id = n.id)
    (hsub : ∀ n, (f n).children.Sublist n.children) (id : NodeId) : (d.update id f).Tidy := by
  refine ⟨(ids_update hf id).symm ▸ hd.ids, hd.forest.of_sublist ?_⟩
  intro x n' hn'
  rw [node?_update hf] at hn'
  obtain ⟨n, hn, rfl⟩ := Option.map_eq_some_iff.mp hn'
  refine ⟨n, hn, ?_⟩
  split
  · exact hsub n
  · exact List.Sublist.refl _

theorem Tidy.bump (hd : d.Tidy) : d.bump.Tidy :=
  ⟨hd.ids, hd.forest.nodup, hd.forest.parent_unique, hd.forest.acyclic⟩

theorem sublist_without (n : Node) (child : NodeId) :
    (n.without child).children.Sublist n.children := List.filter_sublist

/-! ## Taking a node away -/

theorem Tidy.detach (hd : d.Tidy) (child : NodeId) : (d.detach child).Tidy := by
  unfold Document.detach
  split
  · exact hd.update_of_sublist (f := (·.without child)) (fun _ => rfl)
      (fun n => sublist_without n child) _
  · exact hd

/-- A node that is taken away has no parent, all others keep theirs. -/
theorem Tidy.hasChild_detach (hd : d.Tidy) (child : NodeId) :
    (d.detach child).HasChild p c ↔ d.HasChild p c ∧ c ≠ child := by
  unfold Document.detach
  split
  · rename_i q hq
    rw [hd.parent?_eq_some_iff] at hq
    rw [hasChild_update (f := (·.without child)) fun _ => rfl]
    constructor
    · rintro ⟨n, hn, hc⟩
      by_cases hpq : p = q
      · rw [if_pos hpq] at hc
        obtain ⟨hc, hne⟩ := List.mem_filter.mp hc
        exact ⟨⟨n, hn, hc⟩, by simpa using hne⟩
      · rw [if_neg hpq] at hc
        refine ⟨⟨n, hn, hc⟩, ?_⟩
        rintro rfl
        exact hpq (hd.forest.parent_unique p q c ⟨n, hn, hc⟩ hq)
    · rintro ⟨⟨n, hn, hc⟩, hne⟩
      refine ⟨n, hn, ?_⟩
      split
      · exact List.mem_filter.mpr ⟨hc, by simpa using hne⟩
      · exact hc
  · rename_i hnone
    refine ⟨fun h => ⟨h, ?_⟩, And.left⟩
    rintro rfl
    rw [hd.parent?_eq_some_iff.mpr h] at hnone
    cases hnone

theorem Tidy.removeChild (hd : d.Tidy) (h : d.removeChild p c = .ok d') : d'.Tidy := by
  unfold Document.removeChild at h
  cases hf : d.find p with
  | error e =>
    rw [hf] at h
    cases h
  | ok n =>
    simp only [hf, bind, Except.bind] at h
    split at h
    · cases h
      exact (hd.update_of_sublist (f := (·.without c)) (fun _ => rfl)
        (fun n => sublist_without n c) p).bump
    · cases h

theorem Tidy.setValue (hd : d.Tidy) {value : String} (h : d.setValue x value = .ok d') :
    d'.Tidy := by
  unfold Document.setValue at h
  cases hf : d.find x with
  | error e =>
    rw [hf] at h
    cases h
  | ok n =>
    simp only [hf, bind, Except.bind] at h
    cases h
    exact (hd.update_of_sublist (f := fun n => { n with value }) (fun _ => rfl)
      (fun n => List.Sublist.refl _) x).bump

/-! ## Ancestors -/

theorem Tidy.mem_parentChain (hd : d.Tidy) {path : List NodeId} {fuel : Nat}
    (hchain : (c :: path).IsChain fun u v => d.HasChild v u) (hfuel : path.length ≤ fuel) :
    ∀ x ∈ path, x ∈ d.parentChain fuel c := by
  induction path generalizing c fuel with
  | nil => simp
  | cons p path ih =>
    obtain ⟨hpc, hchain'⟩ := List.isChain_cons_cons.mp hchain
    cases fuel with
    | zero => simp at hfuel
    | succ fuel =>
      rw [parentChain, hd.parent?_eq_some_iff.mpr hpc]
      intro x hx
      rcases List.mem_cons.mp hx with rfl | hx
      · exact List.mem_cons_self
      · exact List.mem_cons_of_mem _ (ih hchain' (Nat.le_of_succ_le_succ hfuel) x hx)

theorem exists_of_isChain {R : NodeId → NodeId → Prop} {path : List NodeId}
    (h : (c :: path).IsChain R) : ∀ y ∈ path, ∃ z, R z y := by
  induction path generalizing c with
  | nil => simp
  | cons p path ih =>
    obtain ⟨hcp, hrest⟩ := List.isChain_cons_cons.mp h
    intro y hy
    rcases List.mem_cons.mp hy with rfl | hy
    · exact ⟨c, hcp⟩
    · exact ih hrest y hy

/-- A way up meets no node twice. -/
theorem Tidy.length_le_of_isChain (hd : d.Tidy) {path : List NodeId}
    (hchain : (c :: path).IsChain fun u v => d.HasChild v u) : path.length ≤ d.size := by
  have hnodup : (c :: path).reverse.Nodup := by
    refine nodup_of_isChain hd.forest ?_
    rw [List.isChain_reverse]
    exact hchain
  have hsub : path ⊆ d.nodes.map Node.id := by
    intro y hy
    obtain ⟨z, n, hn, -⟩ := exists_of_isChain hchain y hy
    exact List.mem_map.mpr ⟨n, List.mem_of_find?_eq_some hn, id_of_node? hn⟩
  have hle := (List.subperm_of_subset
    (List.nodup_cons.mp (List.nodup_reverse.mp hnodup)).2 hsub).length_le
  rwa [List.length_map] at hle

/-- The nodes of a document suffice for the way up from any of its nodes. -/
theorem Tidy.isSelfOrAncestor (hd : d.Tidy) (h : ReflTransGen d.HasChild x c) :
    d.isSelfOrAncestor x c = true := by
  obtain ⟨path, hchain, hlast⟩ := List.exists_isChain_cons_of_relationReflTransGen
    (reflTransGen_swap.mpr h)
  rw [Document.isSelfOrAncestor, Bool.or_eq_true, beq_iff_eq, List.contains_iff_mem]
  cases path with
  | nil => exact Or.inl (by simpa using hlast.symm)
  | cons p path =>
    have hmem : x ∈ p :: path := by
      rw [List.getLast_cons (List.cons_ne_nil p path)] at hlast
      exact hlast ▸ List.getLast_mem _
    exact Or.inr (hd.mem_parentChain hchain (hd.length_le_of_isChain hchain) x hmem)

/-! ## Adding nodes -/

theorem node?_append (id : NodeId) (value : String) (x : NodeId) : (d.append id value).node? x =
    (d.node? x).or (if id = x then some ⟨id, value, []⟩ else none) := by
  rw [node?, node?, append, List.find?_append, List.find?_singleton]
  simp only [beq_iff_eq]

theorem Tidy.append (hd : d.Tidy) {id : NodeId} (hid : d.contains id = false) (value : String) :
    (d.append id value).Tidy := by
  refine ⟨?_, ?_, ?_, ?_⟩
  · rw [Document.append, List.map_append, List.nodup_append]
    refine ⟨hd.ids, List.nodup_singleton _, ?_⟩
    rintro x hx y hy rfl
    obtain ⟨n, hn, rfl⟩ := List.mem_map.mp hx
    obtain rfl : n.id = id := by simpa using hy
    rw [contains, List.any_eq_false] at hid
    exact hid n hn (beq_self_eq_true _)
  · intro x n hn
    rw [node?_append] at hn
    cases hx : d.node? x with
    | some m =>
      rw [hx, Option.some_or, Option.some.injEq] at hn
      exact hn ▸ hd.forest.nodup x m hx
    | none =>
      rw [hx, Option.none_or] at hn
      split at hn
      · cases hn
        exact List.nodup_nil
      · cases hn
  all_goals
    have hchild : ∀ {p c}, (d.append id value).HasChild p c → d.HasChild p c := by
      rintro p c ⟨n, hn, hc⟩
      rw [node?_append] at hn
      cases hp : d.node? p with
      | some m =>
        rw [hp, Option.some_or, Option.some.injEq] at hn
        exact ⟨n, hp.trans (congrArg some hn), hc⟩
      | none =>
        rw [hp, Option.none_or] at hn
        split at hn
        · cases hn
          cases hc
        · cases hn
  · exact fun p q c hp hq => hd.forest.parent_unique p q c (hchild hp) (hchild hq)
  · exact fun x hx => hd.forest.acyclic x (TransGen.mono (fun _ _ => hchild) _ _ hx)

theorem mem_withChild {n : Node} {index : Nat} {child : NodeId} :
    c ∈ (n.withChild index child).children ↔ c = child ∨ c ∈ n.children := by
  conv_rhs => rw [← List.take_append_drop index n.children, List.mem_append]
  simp only [Node.withChild, List.mem_append, List.mem_cons]
  exact or_left_comm

/-- A path that takes a new step goes to its start and on from its end. -/
theorem transGen_insert {R : NodeId → NodeId → Prop} {a b y : NodeId}
    (h : TransGen (fun u v => R u v ∨ (u = a ∧ v = b)) x y) :
    TransGen R x y ∨ (ReflTransGen R x a ∧ ReflTransGen R b y) := by
  induction h with
  | single huv =>
    rcases huv with huv | ⟨rfl, rfl⟩
    · exact Or.inl (.single huv)
    · exact Or.inr ⟨.refl, .refl⟩
  | tail _ huv ih =>
    rcases huv with huv | ⟨rfl, rfl⟩
    · rcases ih with ih | ⟨hxa, hbu⟩
      · exact Or.inl (ih.tail huv)
      · exact Or.inr ⟨hxa, hbu.tail huv⟩
    · rcases ih with ih | ⟨hxa, -⟩
      · exact Or.inr ⟨ih.to_reflTransGen, .refl⟩
      · exact Or.inr ⟨hxa, .refl⟩

/-- An insertion puts the child below its new parent and changes no other place. -/
theorem Tidy.hasChild_insert (hd : d.Tidy) {parent : NodeId} (child : NodeId) (index : Nat)
    (hparent : ∃ n, d.node? parent = some n) :
    ((d.detach child).update parent (·.withChild index child)).HasChild p c ↔
      (p = parent ∧ c = child) ∨ (d.HasChild p c ∧ c ≠ child) := by
  have hlive : ∃ n, (d.detach child).node? parent = some n := by
    obtain ⟨n, hn⟩ := hparent
    unfold Document.detach
    split
    · rw [node?_update (f := (·.without child)) fun _ => rfl, hn]
      exact ⟨_, rfl⟩
    · exact ⟨n, hn⟩
  rw [hasChild_update (f := (·.withChild index child)) fun _ => rfl, ← hd.hasChild_detach]
  constructor
  · rintro ⟨n, hn, hc⟩
    by_cases hp : p = parent
    · rw [if_pos hp, mem_withChild] at hc
      rcases hc with hc | hc
      · exact Or.inl ⟨hp, hc⟩
      · exact Or.inr ⟨n, hn, hc⟩
    · rw [if_neg hp] at hc
      exact Or.inr ⟨n, hn, hc⟩
  · rintro (⟨rfl, rfl⟩ | ⟨n, hn, hc⟩)
    · obtain ⟨n, hn⟩ := hlive
      exact ⟨n, hn, by rw [if_pos rfl]; exact mem_withChild.mpr (Or.inl rfl)⟩
    · refine ⟨n, hn, ?_⟩
      split
      · exact mem_withChild.mpr (Or.inr hc)
      · exact hc

/-- An insertion has a place to go to, which is not below the child. -/
theorem insertChild_eq_ok {parent child : NodeId} {index : Nat}
    (h : d.insertChild parent index child = .ok d') :
    (∃ n, d.node? parent = some n) ∧ d.isSelfOrAncestor child parent = false ∧
      d' = ((d.detach child).update parent (·.withChild index child)).bump := by
  unfold Document.insertChild find at h
  cases hparent : d.node? parent with
  | none =>
    rw [hparent] at h
    cases h
  | some n =>
    cases hchild : d.node? child with
    | none =>
      rw [hparent, hchild] at h
      cases h
    | some m =>
      simp only [hparent, hchild, bind, Except.bind] at h
      split at h
      · cases h
      · rename_i hnot
        cases h
        exact ⟨⟨n, rfl⟩, by simpa using hnot, rfl⟩

/-- The children of a node after an insertion are still different from each other. -/
theorem Tidy.nodup_insert (hd : d.Tidy) {parent child x : NodeId} {index : Nat} {n : Node}
    (hn : ((d.detach child).update parent (·.withChild index child)).node? x = some n) :
    n.children.Nodup := by
  rw [node?_update (f := (·.withChild index child)) fun _ => rfl] at hn
  obtain ⟨m, hm, rfl⟩ := Option.map_eq_some_iff.mp hn
  have hnodup := (hd.detach child).forest.nodup x m hm
  split
  · have hfresh : child ∉ m.children := fun hc => ((hd.hasChild_detach child).mp ⟨m, hm, hc⟩).2 rfl
    exact List.nodup_middle.mpr (List.nodup_cons.mpr
      ⟨by rwa [List.take_append_drop], by rwa [List.take_append_drop]⟩)
  · exact hnodup

theorem Tidy.insertChild (hd : d.Tidy) {parent child : NodeId} {index : Nat}
    (h : d.insertChild parent index child = .ok d') : d'.Tidy := by
  obtain ⟨hnode, hnot, rfl⟩ := insertChild_eq_ok h
  have hiff := fun p c => @Tidy.hasChild_insert _ p c hd parent child index hnode
  refine Tidy.bump ⟨?_, fun x n => hd.nodup_insert, ?_, ?_⟩
  · rw [ids_update (f := (·.withChild index child)) fun _ => rfl]
    exact (hd.detach child).ids
  · intro p q c hp hq
    rcases (hiff p c).mp hp with ⟨rfl, rfl⟩ | ⟨hp, hne⟩
    · rcases (hiff q c).mp hq with ⟨rfl, -⟩ | ⟨-, hne⟩
      · rfl
      · exact (hne rfl).elim
    · rcases (hiff q c).mp hq with ⟨-, rfl⟩ | ⟨hq, -⟩
      · exact (hne rfl).elim
      · exact hd.forest.parent_unique p q c hp hq
  · intro x hx
    have hx' : TransGen (fun u v => d.HasChild u v ∨ (u = parent ∧ v = child)) x x := by
      refine TransGen.mono (fun u v huv => ?_) _ _ hx
      rcases (hiff u v).mp huv with h | ⟨h, -⟩
      · exact Or.inr h
      · exact Or.inl h
    rcases transGen_insert hx' with h | ⟨hxp, hcx⟩
    · exact hd.forest.acyclic x h
    · rw [hd.isSelfOrAncestor (hcx.trans hxp)] at hnot
      cases hnot

theorem Tidy.addChild (hd : d.Tidy) {parent id : NodeId} {value : String}
    (h : d.addChild parent id value = .ok d') : d'.Tidy := by
  unfold Document.addChild at h
  split at h
  · cases h
  · rename_i hid
    cases hf : d.find parent with
    | error e =>
      simp only [hf, bind, Except.bind] at h
      cases h
    | ok n =>
      simp only [hf, bind, Except.bind] at h
      exact (hd.append (by simpa using hid) value).insertChild h

/-! ## Documents made by operations -/

/-- The documents that operations make from a root. -/
inductive Made : Document → Prop
  | ofRoot (id : NodeId) (value : String) : Made (ofRoot id value)
  | createNode {d : Document} {id : NodeId} (value : String) : Made d → d.contains id = false →
      Made (d.createNode id value)
  | insertChild {d d' : Document} {parent child : NodeId} {index : Nat} : Made d →
      d.insertChild parent index child = .ok d' → Made d'
  | removeChild {d d' : Document} {parent child : NodeId} : Made d →
      d.removeChild parent child = .ok d' → Made d'
  | setValue {d d' : Document} {id : NodeId} {value : String} : Made d →
      d.setValue id value = .ok d' → Made d'
  | addChild {d d' : Document} {parent id : NodeId} {value : String} : Made d →
      d.addChild parent id value = .ok d' → Made d'

theorem tidy_ofRoot (id : NodeId) (value : String) : (ofRoot id value).Tidy := by
  have hchild : ∀ {p c}, ¬ (ofRoot id value).HasChild p c := by
    rintro p c ⟨n, hn, hc⟩
    have hmem := List.mem_of_find?_eq_some hn
    obtain rfl := List.mem_singleton.mp hmem
    cases hc
  refine ⟨List.nodup_singleton _, ?_, fun p q c hp => (hchild hp).elim, ?_⟩
  · intro p n hn
    obtain rfl := List.mem_singleton.mp (List.mem_of_find?_eq_some hn)
    exact List.nodup_nil
  · intro x hx
    obtain ⟨y, hxy, -⟩ := TransGen.head'_iff.mp hx
    exact hchild hxy

theorem Made.tidy (h : Made d) : d.Tidy := by
  induction h with
  | ofRoot id value => exact tidy_ofRoot id value
  | createNode value _ hid ih => exact (ih.append hid value).bump
  | insertChild _ h ih => exact ih.insertChild h
  | removeChild _ h ih => exact ih.removeChild h
  | setValue _ h ih => exact ih.setValue h
  | addChild _ h ih => exact ih.addChild h

/-- Whatever operations make of a root is a forest. -/
theorem Made.isForest (h : Made d) : d.IsForest := h.tidy.forest

/-! ## Outlines -/

theorem tidy_add {draft draft' : Draft} (hd : draft.document.Tidy) {level : Nat} {id : NodeId}
    {text : String} (h : draft.add level id text = .ok draft') : draft'.document.Tidy := by
  unfold Draft.add at h
  split at h
  · cases h
  · rename_i parent _
    cases ha : draft.document.addChild parent id text with
    | error e =>
      rw [ha] at h
      cases h
    | ok document =>
      rw [ha] at h
      cases h
      exact hd.addChild ha

theorem tidy_readLine {draft draft' : Draft} (hd : draft.document.Tidy) {number : Nat}
    {line : List Char} (h : draft.readLine number line = .ok draft') : draft'.document.Tidy := by
  unfold Draft.readLine at h
  simp only at h
  split at h
  · cases h
  · split at h
    · cases h
    · split at h
      · cases h
      · split at h
        · split at h
          · cases h
          · exact tidy_add hd h
        · have hd' : ({ draft with supply := draft.supply.next.2 } : Draft).document.Tidy := hd
          exact tidy_add hd' h

theorem tidy_readLines {lines : List (List Char)} {draft draft' : Draft}
    (hd : draft.document.Tidy) {number : Nat}
    (h : Draft.readLines number lines draft = .ok draft') : draft'.document.Tidy := by
  induction lines generalizing draft number with
  | nil =>
    cases h
    exact hd
  | cons line rest ih =>
    rw [Draft.readLines] at h
    split at h
    · exact ih hd h
    · split at h
      · rename_i next hnext
        exact ih (tidy_readLine hd hnext) h
      · cases h

/-- What is read from an outline is a forest. -/
theorem isForest_ofOutline {supply supply' : IdSupply} {source : List Char}
    (h : ofOutline supply source = .ok (d, supply')) : d.IsForest := by
  unfold ofOutline at h
  split at h
  · rename_i draft hdraft
    cases h
    have htidy := tidy_readLines (tidy_ofRoot "root" "") hdraft
    exact ⟨htidy.forest.nodup, htidy.forest.parent_unique, htidy.forest.acyclic⟩
  · cases h

end FormulaOutline.Document
