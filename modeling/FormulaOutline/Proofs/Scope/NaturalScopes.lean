import FormulaOutline.Proofs.Scope.NaturalPlace
import FormulaOutline.Proofs.Scope.Rebuilding
import FormulaOutline.Proofs.Scope.Shapes

/-!
# Natural scopes and their document

The scopes that are reached from the root by children alone, without references, stand for the nodes
below the document's root, one for each node and in the same order.

* `Blueprint.IsAt`: the scopes below a scope are those of a blueprint.
* `ScopeTree.Natural`: a scope stands at the natural place of its node.
* `ScopeTree.Mirrors`: the natural scopes of a tree say what the document says.
* `mirrors_build`, `mirrors_rebuild`: trees mirror the document from which they have been made, however
  far their evaluation has come.
-/

namespace FormulaOutline

open Relation Formula

/-! ## Planted blueprints -/

namespace Blueprint

open Arena

mutual

/-- A blueprint stands at a scope: the scope and those below it along children have its nodes, and all
of them are among the given ones. -/
def IsAt (a : Arena ScopeRecord) (among : ScopeId → Prop) : Blueprint → ScopeId → Prop
  | placeholder n, x => among x ∧ ∃ r, a.get? x = some r ∧ r.node = n ∧ r.placeholder = true ∧
      r.children = []
  | scope n bullet children _, x => among x ∧ ∃ r, a.get? x = some r ∧ r.node = n ∧
      r.placeholder = false ∧ r.bullet = bullet ∧ AllAt a among children r.children

def AllAt (a : Arena ScopeRecord) (among : ScopeId → Prop) : List Blueprint → List ScopeId → Prop
  | [], xs => xs = []
  | b :: rest, xs => ∃ x xs', xs = x :: xs' ∧ IsAt a among b x ∧ AllAt a among rest xs'

end

mutual

theorem IsAt.mono {a a' : Arena ScopeRecord} {among among' : ScopeId → Prop}
    (hAmong : ∀ x, among x → among' x)
    (hKept : ∀ x r, among x → a.get? x = some r → a'.get? x = some r) :
    (b : Blueprint) → (x : ScopeId) → b.IsAt a among x → b.IsAt a' among' x
  | placeholder n, x, h => by
    obtain ⟨hx, r, hr, hRest⟩ := h
    exact ⟨hAmong x hx, r, hKept x r hx hr, hRest⟩
  | scope n bullet children references, x, h => by
    obtain ⟨hx, r, hr, hNode, hPlaceholder, hBullet, hChildren⟩ := h
    exact ⟨hAmong x hx, r, hKept x r hx hr, hNode, hPlaceholder, hBullet,
      AllAt.mono hAmong hKept children r.children hChildren⟩

theorem AllAt.mono {a a' : Arena ScopeRecord} {among among' : ScopeId → Prop}
    (hAmong : ∀ x, among x → among' x)
    (hKept : ∀ x r, among x → a.get? x = some r → a'.get? x = some r) :
    (bs : List Blueprint) → (xs : List ScopeId) → AllAt a among bs xs → AllAt a' among' bs xs
  | [], xs, h => h
  | b :: rest, xs, h => by
    obtain ⟨x, xs', rfl, hb, hRest⟩ := h
    exact ⟨x, xs', rfl, IsAt.mono hAmong hKept b x hb, AllAt.mono hAmong hKept rest xs' hRest⟩

end

mutual

/-- A blueprint that is planted stands at its top, in new scopes. -/
theorem plant_isAt {a : Arena ScopeRecord} (ha : a.Sound) (parent : Option ScopeId)
    (transclusion : Bool) : (b : Blueprint) → b.Keyed →
    b.IsAt (b.plant a parent transclusion).2 (fun x => a.get? x = none)
      (b.plant a parent transclusion).1
  | placeholder n, _ => by
    rw [plant]
    exact ⟨get?_alloc_fresh ha _, _, get?_alloc_self ha _, rfl, rfl, rfl⟩
  | scope n bullet children references, hb => by
    obtain ⟨-, hChildren, hReferences⟩ := hb
    let v := (scope n bullet children references).record parent transclusion
    have hFresh := get?_alloc_fresh ha v
    have hSelf := get?_alloc_self ha v
    have hOther := fun x (hx : x ≠ (a.alloc v).1) => get?_alloc_ne ha v hx
    have hSound := ha.alloc v
    rw [plant]
    simp only
    change a.get? (a.alloc v).1 = none ∧ _
    refine ⟨hFresh, ?_⟩
    generalize (a.alloc v).1 = id at *
    generalize (a.alloc v).2 = a₁ at *
    obtain ⟨hg, -⟩ := plantAll_grown hSound id false children hChildren
    obtain ⟨hg', -⟩ := plantAll_grown hg.sound id true references hReferences
    have hAt := plantAll_allAt hSound id false children hChildren
    refine ⟨_, get?_modify_of_some ((hg.trans hg').kept id v hSelf) _, rfl, rfl, rfl, ?_⟩
    -- The scopes below have been made after the one above them, so its links do not touch them.
    refine AllAt.mono ?_ ?_ children _ hAt
    · intro x hx
      rw [← hOther x ?_, hx]
      rintro rfl
      rw [hSelf] at hx
      cases hx
    · intro x r hx hr
      rw [get?_modify_of_ne]
      · exact hg'.kept x r hr
      · rintro rfl
        rw [hSelf] at hx
        cases hx

theorem plantAll_allAt {a : Arena ScopeRecord} (ha : a.Sound) (owner : ScopeId)
    (transclusion : Bool) : (bs : List Blueprint) → AllKeyed bs →
    AllAt (plantAll a owner transclusion bs).2 (fun x => a.get? x = none) bs
      (plantAll a owner transclusion bs).1
  | [], _ => rfl
  | b :: rest, hb => by
    obtain ⟨hg, -⟩ := plant_grown ha (some owner) transclusion b hb.1
    obtain ⟨hg', -⟩ := plantAll_grown hg.sound owner transclusion rest hb.2
    rw [plantAll]
    refine ⟨_, _, rfl, ?_, ?_⟩
    · exact IsAt.mono (fun _ hx => hx) (fun x r _ hr => hg'.kept x r hr) b _
        (plant_isAt ha (some owner) transclusion b hb.1)
    · exact AllAt.mono (fun x hx => hg.none_of_none hx) (fun _ _ _ hr => hr) rest _
        (plantAll_allAt hg.sound owner transclusion rest hb.2)

end

/-! ### Bullets -/

mutual

/-- Each scope of a blueprint has a bullet that goes with its node. -/
def Quotes (P : NodeId → Bullet → Prop) : Blueprint → Prop
  | placeholder _ => True
  | scope n bullet children references =>
      P n bullet ∧ AllQuotes P children ∧ AllQuotes P references

def AllQuotes (P : NodeId → Bullet → Prop) : List Blueprint → Prop
  | [] => True
  | b :: rest => Quotes P b ∧ AllQuotes P rest

end

theorem allQuotes_iff {P : NodeId → Bullet → Prop} {bs : List Blueprint} :
    AllQuotes P bs ↔ ∀ b ∈ bs, b.Quotes P := by
  induction bs with
  | nil => simp [AllQuotes]
  | cons b rest ih => simp [AllQuotes, ih]

/-- All records have bullets that go with their nodes, or none. -/
def Quoted (P : NodeId → Bullet → Prop) (a : Arena ScopeRecord) : Prop :=
  ∀ x r, a.get? x = some r → r.bullet = .literal [] ∨ P r.node r.bullet

theorem Quoted.alloc {P : NodeId → Bullet → Prop} {a : Arena ScopeRecord} (h : Quoted P a)
    (ha : a.Sound) {v : ScopeRecord} (hv : v.bullet = .literal [] ∨ P v.node v.bullet) :
    Quoted P (a.alloc v).2 := by
  intro x r hr
  by_cases hx : x = (a.alloc v).1
  · rw [hx, get?_alloc_self ha] at hr
    exact Option.some.inj hr ▸ hv
  · exact h x r (get?_alloc_ne ha v hx ▸ hr)

theorem Quoted.modify {P : NodeId → Bullet → Prop} {a : Arena ScopeRecord} (h : Quoted P a)
    (id : ScopeId) {f : ScopeRecord → ScopeRecord} (hf : ∀ r, (f r).node = r.node)
    (hf' : ∀ r, (f r).bullet = r.bullet) : Quoted P (a.modify id f) := by
  intro x r hr
  rw [get?_modify] at hr
  split at hr
  · obtain ⟨r', hr', rfl⟩ := Option.map_eq_some_iff.mp hr
    rw [hf, hf']
    exact h id r' hr'
  · exact h x r hr

mutual

theorem plant_quoted {P : NodeId → Bullet → Prop} {a : Arena ScopeRecord} (ha : a.Sound)
    (h : Quoted P a) (parent : Option ScopeId) (transclusion : Bool) : (b : Blueprint) → b.Keyed →
    b.Quotes P → Quoted P (b.plant a parent transclusion).2
  | placeholder n, _, _ => by
    rw [plant]
    exact h.alloc ha (Or.inl rfl)
  | scope n bullet children references, hKeyed, hb => by
    obtain ⟨-, hKeyed, hKeyed'⟩ := hKeyed
    obtain ⟨hBullet, hChildren, hReferences⟩ := hb
    let v := (scope n bullet children references).record parent transclusion
    have hSound := ha.alloc v
    have hSelf : Quoted P (a.alloc v).2 := h.alloc ha (Or.inr hBullet)
    obtain ⟨hg, -⟩ := plantAll_grown hSound (a.alloc v).1 false children hKeyed
    have hAll := plantAll_quoted hSound hSelf (a.alloc v).1 false children hKeyed hChildren
    have hAll' := plantAll_quoted hg.sound hAll (a.alloc v).1 true references hKeyed' hReferences
    rw [plant]
    exact hAll'.modify _ (fun _ => rfl) fun _ => rfl

theorem plantAll_quoted {P : NodeId → Bullet → Prop} {a : Arena ScopeRecord} (ha : a.Sound)
    (h : Quoted P a) (owner : ScopeId) (transclusion : Bool) : (bs : List Blueprint) →
    AllKeyed bs → AllQuotes P bs → Quoted P (plantAll a owner transclusion bs).2
  | [], _, _ => h
  | b :: rest, hKeyed, hb => by
    obtain ⟨hg, -⟩ := plant_grown ha (some owner) transclusion b hKeyed.1
    rw [plantAll]
    exact plantAll_quoted hg.sound (plant_quoted ha h (some owner) transclusion b hKeyed.1 hb.1)
      owner transclusion rest hKeyed.2 hb.2

end

end Blueprint

/-- A bullet is that of a node. -/
def Document.IsBullet (d : Document) (n : NodeId) (b : Bullet) : Prop :=
  ∃ m, d.node? n = some m ∧ b = bulletOrLiteral m.value.toList

theorem Document.quotes_unfoldWithin (d : Document) (fuel : Nat) (path : List NodeId) (id : NodeId) :
    (d.unfoldWithin fuel path id).Quotes d.IsBullet := by
  induction fuel generalizing path id with
  | zero => trivial
  | succ fuel ih =>
    rw [unfoldWithin]
    split
    · trivial
    · split
      · trivial
      · rename_i m hm
        refine ⟨⟨m, hm, rfl⟩, Blueprint.allQuotes_iff.mpr ?_, Blueprint.allQuotes_iff.mpr ?_⟩
        · simpa using fun c _ => ih (id :: path) c
        · simpa using fun c _ => ih (id :: path) c

namespace ScopeTree

/-! ## Natural scopes -/

/-- A scope stands at the natural place of its node: it is reached from the root by children alone. -/
def Natural (t : ScopeTree) (x : ScopeId) : Prop :=
  ReflTransGen (fun p c => c ∈ t.children p) t.root x

variable {t t' : ScopeTree} {x y p : ScopeId} {r : ScopeRecord} {d : Document} {n : NodeId}

theorem Natural.child (hp : t.Natural p) (hx : x ∈ t.children p) : t.Natural x := hp.tail hx

theorem children_of_record? (hr : t.record? x = some r) : t.children x = r.children := by
  rw [children, hr]
  rfl

theorem node?_of_record? (hr : t.record? x = some r) : t.node? x = some r.node := by
  rw [node?, hr]
  rfl

theorem owns_of_mem_children (hx : x ∈ t.children p) : t.arena.Owns p x := by
  cases hr : t.record? p with
  | none =>
    rw [children, hr] at hx
    cases hx
  | some r =>
    rw [children_of_record? hr] at hx
    exact ⟨r, hr, List.mem_append_left _ hx⟩

section Rooted

variable (h : t.Rooted)
include h

theorem Rooted.parent?_of_mem_children (hx : x ∈ t.children p) : t.parent? x = some p :=
  h.parent?_of_owns (owns_of_mem_children hx)

theorem Rooted.parent?_root : t.parent? t.root = none := by
  obtain ⟨r, hr, hParent, -⟩ := h.root
  rw [parent?, hr, Option.bind_some, hParent]

theorem Rooted.live_of_natural (hx : t.Natural x) : ∃ r, t.record? x = some r := by
  cases hx with
  | refl =>
    obtain ⟨r, hr, -⟩ := h.root
    exact ⟨r, hr⟩
  | tail _ hc =>
    obtain ⟨s, hs, -⟩ := h.live_of_owns (owns_of_mem_children hc)
    exact ⟨s, hs⟩

theorem Rooted.isTransclusion_of_natural (hx : t.Natural x) : t.isTransclusion x = false := by
  cases hx with
  | refl =>
    obtain ⟨r, hr, -, hFlag⟩ := h.root
    rw [isTransclusion, hr, Option.map_some, Option.getD_some, hFlag]
  | @tail p _ hp hc =>
    obtain ⟨r, hr⟩ := h.live_of_natural hp
    obtain ⟨s, hs, -, hFlag⟩ := (h.linked p r hr).child x (children_of_record? hr ▸ hc)
    rw [isTransclusion, show t.record? x = some s from hs, Option.map_some, Option.getD_some, hFlag]

/-- A natural scope other than the root is a child of its parent, a natural scope. -/
theorem Rooted.parent_of_natural (hx : t.Natural x) (hp : t.parent? x = some p) :
    t.Natural p ∧ x ∈ t.children p := by
  cases hx with
  | refl =>
    rw [h.parent?_root] at hp
    cases hp
  | @tail q _ hq hc =>
    obtain rfl := Option.some.inj ((h.parent?_of_mem_children hc).symm.trans hp)
    exact ⟨hq, hc⟩

theorem Rooted.eq_root_of_natural (hx : t.Natural x) (hp : t.parent? x = none) : x = t.root := by
  cases hx with
  | refl => rfl
  | tail _ hc =>
    rw [h.parent?_of_mem_children hc] at hp
    cases hp

theorem natural_of_mem_descendWithin {fuel : Nat} {u : Unit} (hx : t.Natural x)
    (hy : y ∈ (t.descendWithin (linksOf false) (fun _ u => u) fuel u x).map Prod.fst) :
    t.Natural y := by
  induction fuel generalizing x with
  | zero => cases hy
  | succ fuel ih =>
    obtain ⟨r, hr⟩ := h.live_of_natural hx
    rw [descendWithin, hr] at hy
    simp only [List.map_cons, List.map_flatMap, List.mem_cons, List.mem_flatMap] at hy
    rcases hy with rfl | ⟨c, hc, hy⟩
    · exact hx
    · exact ih (hx.child ((children_of_record? hr).symm ▸ hc)) hy

theorem mem_descendWithin_of_natural {fuel k : Nat} {u : Unit} (hx : t.Descends t.root k x)
    (hFuel : t.arena.slots.size < fuel + k)
    (hy : ReflTransGen (fun p c => c ∈ t.children p) x y) :
    y ∈ (t.descendWithin (linksOf false) (fun _ u => u) fuel u x).map Prod.fst := by
  have hDepth := h.depth_lt hx
  obtain ⟨root, hRoot, -⟩ := h.root
  obtain ⟨r, hr⟩ := h.live_of_descends ⟨root, hRoot⟩ hx
  induction hy using ReflTransGen.head_induction_on generalizing fuel k r with
  | refl =>
    obtain ⟨fuel, rfl⟩ : ∃ f, fuel = f + 1 := ⟨fuel - 1, by omega⟩
    rw [descendWithin, hr]
    exact List.mem_cons_self
  | @head x c hc _ ih =>
    obtain ⟨fuel, rfl⟩ : ∃ f, fuel = f + 1 := ⟨fuel - 1, by omega⟩
    have hStep := hx.step (owns_of_mem_children hc)
    obtain ⟨s, hs, -⟩ := h.live_of_owns (owns_of_mem_children hc)
    rw [children_of_record? hr] at hc
    rw [descendWithin, hr]
    simp only [List.map_cons, List.map_flatMap, List.mem_cons, List.mem_flatMap]
    exact Or.inr ⟨c, hc, ih hStep (by omega) (h.depth_lt hStep) s hs⟩

/-- The scopes below the root, without references, are the natural ones. -/
theorem Rooted.mem_below_iff : x ∈ t.below false t.root ↔ t.Natural x := by
  obtain ⟨r, hr, -⟩ := h.root
  constructor
  · exact natural_of_mem_descendWithin h .refl
  · exact mem_descendWithin_of_natural h .here (by omega)

end Rooted

/-! ## Trees and documents -/

/-- A scope stands for a node of a document: it has the node's bullet and a child for each of its
children in order, or it is a placeholder for a node that is missing. -/
inductive StandsFor (t : ScopeTree) (d : Document) (r : ScopeRecord) : Prop
  | missing : d.node? r.node = none → r.placeholder = true → r.children = [] → StandsFor t d r
  | node (m : Node) : d.node? r.node = some m → r.placeholder = false →
      r.bullet = bulletOrLiteral m.value.toList →
      r.children.map t.node? = m.children.map some → StandsFor t d r

/-- The natural scopes of a tree say what a document says. -/
structure Mirrors (t : ScopeTree) (d : Document) : Prop where
  rooted : t.Rooted
  root : t.node? t.root = some d.root
  natural : ∀ x, t.Natural x → ∃ r, t.record? x = some r ∧ t.StandsFor d r

section Unfolded

variable {a : Arena ScopeRecord} {root : ScopeId} {among : ScopeId → Prop}

theorem node?_of_isAt {b : Blueprint} (h : b.IsAt a among x) :
    (⟨a, root⟩ : ScopeTree).node? x = some b.node := by
  cases b <;>
  · obtain ⟨-, r, hr, rfl, -⟩ := h
    exact node?_of_record? hr

theorem map_node?_of_allAt {bs : List Blueprint} {xs : List ScopeId}
    (h : Blueprint.AllAt a among bs xs) :
    xs.map (⟨a, root⟩ : ScopeTree).node? = (bs.map Blueprint.node).map some ∧
      ∀ x ∈ xs, ∃ b ∈ bs, b.IsAt a among x := by
  induction bs generalizing xs with
  | nil =>
    rw [Blueprint.AllAt] at h
    simp [h]
  | cons b rest ih =>
    obtain ⟨x, xs', rfl, hb, hRest⟩ := h
    obtain ⟨hNodes, hEach⟩ := ih hRest
    refine ⟨by rw [List.map_cons, List.map_cons, List.map_cons, hNodes, node?_of_isAt hb], ?_⟩
    rw [List.forall_mem_cons]
    refine ⟨⟨b, List.mem_cons_self, hb⟩, fun y hy => ?_⟩
    obtain ⟨b', hb', hAt⟩ := hEach y hy
    exact ⟨b', List.mem_cons_of_mem _ hb', hAt⟩

variable (hd : d.IsForest) (hAt : (d.unfold [] d.root).IsAt a among root)
include hd hAt

/-- Below each natural scope stands what its node unfolds to, and there is room to unfold it. -/
theorem unfolded_of_natural (hx : (⟨a, root⟩ : ScopeTree).Natural x) :
    ∃ fuel path n, d.room path < fuel + 1 ∧ (∀ y ∈ path, TransGen d.HasChild y n) ∧
      (d.unfoldWithin (fuel + 1) path n).IsAt a among x := by
  induction hx with
  | refl => exact ⟨_, [], _, Nat.lt_succ_of_le (d.room_le []), by simp, hAt⟩
  | @tail p c _ hc ih =>
    obtain ⟨fuel, path, n, hFuel, hPath, hStands⟩ := ih
    have hn : n ∉ path := fun hMem => hd.acyclic n (hPath n hMem)
    cases hm : d.node? n with
    | none =>
      rw [Document.unfoldWithin_eq_placeholder (Or.inr hm)] at hStands
      obtain ⟨-, r, hr, -, -, hNone⟩ := hStands
      rw [children_of_record? (t := ⟨a, root⟩) hr, hNone] at hc
      cases hc
    | some m =>
      rw [Document.unfoldWithin_eq_scope hn hm] at hStands
      obtain ⟨-, r, hr, -, -, -, hChildren⟩ := hStands
      rw [children_of_record? (t := ⟨a, root⟩) hr] at hc
      obtain ⟨b, hb, hAt'⟩ := (@map_node?_of_allAt _ root _ _ _ hChildren).2 c hc
      obtain ⟨k, hk, rfl⟩ := List.mem_map.mp hb
      have hChild : d.HasChild n k := ⟨m, hm, hk⟩
      have hRoom := Document.room_cons_lt hm hn
      obtain ⟨fuel, rfl⟩ : ∃ f, fuel = f + 1 := ⟨fuel - 1, by omega⟩
      refine ⟨fuel, n :: path, k, by omega, ?_, hAt'⟩
      intro y hy
      rcases List.mem_cons.mp hy with rfl | hy
      · exact .single hChild
      · exact (hPath y hy).tail hChild

theorem mirrors_of_isAt (h : Rooted ⟨a, root⟩) : Mirrors ⟨a, root⟩ d := by
  refine ⟨h, ?_, fun x hx => ?_⟩
  · exact (node?_of_isAt hAt).trans (congrArg some (d.node_unfold [] d.root))
  · obtain ⟨fuel, path, n, -, hPath, hStands⟩ := unfolded_of_natural hd hAt hx
    have hn : n ∉ path := fun hMem => hd.acyclic n (hPath n hMem)
    cases hm : d.node? n with
    | none =>
      rw [Document.unfoldWithin_eq_placeholder (Or.inr hm)] at hStands
      obtain ⟨-, r, hr, rfl, hPlaceholder, hNone⟩ := hStands
      exact ⟨r, hr, .missing hm hPlaceholder hNone⟩
    | some m =>
      rw [Document.unfoldWithin_eq_scope hn hm] at hStands
      obtain ⟨-, r, hr, rfl, hPlaceholder, hBullet, hChildren⟩ := hStands
      refine ⟨r, hr, .node m hm hPlaceholder hBullet ?_⟩
      rw [(map_node?_of_allAt hChildren).1, List.map_map]
      simp [Function.comp_def, Document.node_unfoldWithin]

end Unfolded

/-- Every scope of a document's tree has the bullet of its node, or none. -/
theorem quoted_build (d : Document) : Blueprint.Quoted d.IsBullet (build d).arena :=
  Blueprint.plant_quoted Arena.sound_empty (fun _ _ hr => by cases hr) none false _
    (d.keyed_unfold [] d.root) (d.quotes_unfoldWithin _ [] d.root)

theorem mirrors_build (hd : d.IsForest) : (build d).Mirrors d :=
  mirrors_of_isAt hd (Blueprint.plant_isAt Arena.sound_empty none false _ (d.keyed_unfold [] d.root))
    (rooted_build d)

/-- Rebuilding the root makes the tree of the new document in the slots of the old one. -/
theorem mirrors_rebuild {d' : Document} {new : ScopeId} {gone : List ScopeId} (h : t.Mirrors d)
    (hRoot : d'.root = d.root) (hd : d'.IsForest)
    (hRebuild : t.rebuild t.root d' = .ok (new, gone, t')) : t'.Mirrors d' := by
  have hRooted := h.rooted.rebuild hRebuild
  obtain ⟨r, arena, hr, rfl, hPlant, hCase⟩ := rebuild_cases hRebuild
  obtain ⟨root, hLive, hParent, -⟩ := h.rooted.root
  obtain rfl := Option.some.inj (hr.symm.trans hLive)
  have hAncestors : t.ancestors t.root = [] := by
    rw [ancestors, h.rooted.parent?_root]
  have hNode : r.node = d'.root := by
    have hNode := h.root
    rw [node?, hr, Option.map_some, Option.some.injEq] at hNode
    rw [hNode, hRoot]
  rcases hCase with ⟨-, rfl⟩ | ⟨owner, hOwner, -⟩
  · have hAt := Blueprint.plant_isAt (sound_freeAll h.rooted.sound (t.owned t.root)) r.parent
      r.transclusion _ (d'.keyed_unfold ((t.ancestors t.root).map (·.2.node)) r.node)
    rw [hPlant, hAncestors, hNode] at hAt
    exact mirrors_of_isAt hd hAt hRooted
  · rw [hParent] at hOwner
    cases hOwner

theorem SameShape.natural (h : t.SameShape t') (hx : t.Natural x) : t'.Natural x := by
  induction hx with
  | refl => exact h.root ▸ .refl
  | tail _ hc ih => exact ih.child (h.children _ ▸ hc)

theorem SameShape.node? (h : t.SameShape t') (x : ScopeId) : t.node? x = t'.node? x :=
  h.map_record? ScopeRecord.node (fun _ => rfl) x

theorem SameShape.quoted (h : t.SameShape t') {P : NodeId → Bullet → Prop}
    (hQuoted : Blueprint.Quoted P t.arena) : Blueprint.Quoted P t'.arena := by
  intro x r' hr'
  have hSame := h.map_record? (fun r => (r.node, r.bullet)) (fun _ => rfl) x
  rw [show t'.record? x = some r' from hr', Option.map_some] at hSame
  obtain ⟨r, hr, hEq⟩ := Option.map_eq_some_iff.mp hSame
  simp only [Prod.mk.injEq] at hEq
  rw [← hEq.1, ← hEq.2]
  exact hQuoted x r hr

/-- Evaluation does not change what a tree says of its document. -/
theorem Mirrors.of_sameShape (h : t.Mirrors d) (hShape : t.SameShape t')
    (hSound : t'.arena.Sound) : t'.Mirrors d := by
  refine ⟨h.rooted.of_shapes hShape.root.symm hSound fun x => (hShape.shapes x).symm, ?_, ?_⟩
  · rw [← hShape.root, ← hShape.node?]
    exact h.root
  · intro x hx
    obtain ⟨r, hr, hStands⟩ := h.natural x (hShape.symm.natural hx)
    have hx' := hShape.shapes x
    rw [hr, Option.map_some] at hx'
    obtain ⟨r', hr', hSame⟩ := Option.map_eq_some_iff.mp hx'.symm
    have hNode : r'.node = r.node := (congrArg ScopeRecord.node hSame :)
    have hPlaceholder : r'.placeholder = r.placeholder := (congrArg ScopeRecord.placeholder hSame :)
    have hChildren := ScopeRecord.children_of_shape hSame
    refine ⟨r', hr', ?_⟩
    cases hStands with
    | missing hm hp hc =>
      exact .missing (hNode ▸ hm) (hPlaceholder.trans hp) (hChildren.trans hc)
    | node m hm hp hb hc =>
      have hBullet : r'.bullet = r.bullet := (congrArg ScopeRecord.bullet hSame :)
      refine .node m (hNode ▸ hm) (hPlaceholder.trans hp) (hBullet.trans hb) ?_
      rw [hChildren, ← hc]
      exact List.map_congr_left fun c _ => (hShape.node? c).symm

/-! ## One natural scope for each node -/

namespace Mirrors

variable (h : t.Mirrors d)
include h

theorem node_of_natural (hx : t.Natural x) : ∃ n, t.node? x = some n := by
  obtain ⟨r, hr, -⟩ := h.natural x hx
  exact ⟨r.node, by rw [node?, hr, Option.map_some]⟩

theorem map_children (hx : t.Natural x) (hn : t.node? x = some n) {m : Node}
    (hm : d.node? n = some m) : (t.children x).map t.node? = m.children.map some := by
  obtain ⟨r, hr, hStands⟩ := h.natural x hx
  rw [node?, hr, Option.map_some, Option.some.injEq] at hn
  subst hn
  rw [children_of_record? hr]
  cases hStands with
  | missing hNone =>
    rw [hm] at hNone
    cases hNone
  | node m' hm' _ _ hc =>
    obtain rfl := Option.some.inj (hm.symm.trans hm')
    exact hc

/-- What a natural scope says apart from its value is told by its node. -/
theorem reads (hx : t.Natural x) (hn : t.node? x = some n) :
    (d.node? n = none ∧ t.isPlaceholder x = true ∧
      (t.record? x).map ScopeRecord.bullet = some (.literal []) ∧ t.children x = []) ∨
    ∃ m, d.node? n = some m ∧ t.isPlaceholder x = false ∧
      (t.record? x).map ScopeRecord.bullet = some (bulletOrLiteral m.value.toList) ∧
      (t.children x).map t.node? = m.children.map some := by
  obtain ⟨r, hr, hStands⟩ := h.natural x hx
  rw [node?, hr, Option.map_some, Option.some.injEq] at hn
  subst hn
  simp only [isPlaceholder, hr, Option.map_some, Option.getD_some, children_of_record? hr,
    Option.some.injEq]
  cases hStands with
  | missing hNone hPlaceholder hChildren =>
    exact Or.inl ⟨hNone, hPlaceholder, ((h.rooted.linked x r hr).blank hPlaceholder).1, hChildren⟩
  | node m hm hPlaceholder hBullet hChildren =>
    exact Or.inr ⟨m, hm, hPlaceholder, hBullet, hChildren⟩

theorem hasChild_of_mem {c : NodeId} (hp : t.Natural p) (hn : t.node? p = some n)
    (hx : x ∈ t.children p) (hc : t.node? x = some c) : d.HasChild n c := by
  obtain ⟨r, hr, hStands⟩ := h.natural p hp
  rw [children_of_record? hr] at hx
  rw [node?, hr, Option.map_some, Option.some.injEq] at hn
  subst hn
  cases hStands with
  | missing _ _ hNone =>
    rw [hNone] at hx
    cases hx
  | node m hm _ _ hChildren =>
    have hMem : some c ∈ m.children.map some := hChildren ▸ hc ▸ List.mem_map_of_mem hx
    obtain ⟨c', hc', hEq⟩ := List.mem_map.mp hMem
    obtain rfl := Option.some.inj hEq
    exact ⟨m, hm, hc'⟩

theorem reached_of_natural (hx : t.Natural x) (hn : t.node? x = some n) :
    ReflTransGen d.HasChild d.root n := by
  induction hx generalizing n with
  | refl =>
    obtain rfl := Option.some.inj (h.root.symm.trans hn)
    exact .refl
  | tail hp hc ih =>
    obtain ⟨q, hq⟩ := h.node_of_natural hp
    exact (ih hq).tail (h.hasChild_of_mem hp hq hc hn)

/-- No natural scope but the root stands for the root. -/
theorem not_child_root (hd : d.IsForest) (hp : t.Natural p) (hx : x ∈ t.children p) :
    t.node? x ≠ some d.root := by
  intro hn
  obtain ⟨q, hq⟩ := h.node_of_natural hp
  exact hd.acyclic d.root ((TransGen.single (h.hasChild_of_mem hp hq hx hn)).trans_right
    (h.reached_of_natural hp hq))

theorem nodup_map_children (hd : d.IsForest) (hp : t.Natural p) :
    ((t.children p).map t.node?).Nodup := by
  obtain ⟨r, hr, hStands⟩ := h.natural p hp
  rw [children_of_record? hr]
  cases hStands with
  | missing _ _ hNone =>
    rw [hNone]
    exact List.nodup_nil
  | node m hm _ _ hChildren =>
    rw [hChildren]
    exact (hd.nodup _ m hm).map fun _ _ => Option.some.inj

/-- Each node has at most one natural scope. -/
theorem natural_unique (hd : d.IsForest) (hx : t.Natural x) (hy : t.Natural y)
    (hxy : t.node? x = t.node? y) : x = y := by
  induction hx generalizing y with
  | refl =>
    cases hy with
    | refl => rfl
    | tail hq hc => exact absurd (hxy.symm.trans h.root) (h.not_child_root hd hq hc)
  | @tail p x hp hc ih =>
    cases hy with
    | refl => exact absurd (hxy.trans h.root) (h.not_child_root hd hp hc)
    | @tail q _ hq hc' =>
      obtain ⟨n, hn⟩ := h.node_of_natural (Natural.child hp hc)
      obtain ⟨a, ha⟩ := h.node_of_natural hp
      obtain ⟨b, hb⟩ := h.node_of_natural hq
      have hSame := hd.parent_unique a b n (h.hasChild_of_mem hp ha hc hn)
        (h.hasChild_of_mem hq hb hc' (hxy ▸ hn))
      obtain rfl := ih hq (by rw [ha, hb, hSame])
      exact List.inj_on_of_nodup_map (h.nodup_map_children hd hp) hc hc' hxy

end Mirrors

end ScopeTree

end FormulaOutline
