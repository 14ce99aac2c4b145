import FormulaOutline.Proofs.Pattern.Places
import FormulaOutline.Proofs.Scope.NaturalScopes

/-!
# Scopes that spell blueprints

A scope spells a blueprint if it and all that it owns say what the blueprint says, in the same order.
Then the tree of the scope is known up to the ids of its scopes.

* `Blueprint.SpelledBy`: a scope spells a blueprint, `SpelledBy.unique`: it spells no other one.
* `SpelledBy.transfer`: what stays of a spelling when scopes change.
* `plant_spelled`: planting a blueprint makes a scope that spells it.
* `Document.unfold_eq_scope`: a node unfolds to its children and references, whatever the fuel.
* `ScopeTree.spelled_at`: below each scope of a tree stands what its node unfolds to below the nodes
  above it.
-/

namespace FormulaOutline

open Relation Formula

namespace Blueprint

open Arena

mutual

/-- A scope says what a blueprint says, and so does each scope that it owns. -/
def SpelledBy (a : Arena ScopeRecord) : Blueprint → ScopeId → Prop
  | placeholder n, x => ∃ r, a.get? x = some r ∧ r.node = n ∧ r.placeholder = true ∧ r.owned = []
  | scope n bullet children references, x => ∃ r, a.get? x = some r ∧ r.node = n ∧
      r.placeholder = false ∧ r.bullet = bullet ∧ AllSpelledBy a children r.children ∧
      AllSpelledBy a references (r.transcluded.map Prod.snd)

def AllSpelledBy (a : Arena ScopeRecord) : List Blueprint → List ScopeId → Prop
  | [], xs => xs = []
  | b :: rest, xs => ∃ x xs', xs = x :: xs' ∧ SpelledBy a b x ∧ AllSpelledBy a rest xs'

end

variable {a a' : Arena ScopeRecord} {x y : ScopeId} {r : ScopeRecord}

theorem AllSpelledBy.exists_of_mem {bs : List Blueprint} {xs : List ScopeId}
    (h : AllSpelledBy a bs xs) (hx : x ∈ xs) : ∃ b ∈ bs, b.SpelledBy a x := by
  induction bs generalizing xs with
  | nil =>
    obtain rfl : xs = [] := h
    cases hx
  | cons b rest ih =>
    obtain ⟨y, xs', rfl, hb, hRest⟩ := h
    rcases List.mem_cons.mp hx with rfl | hx
    · exact ⟨b, List.mem_cons_self, hb⟩
    · obtain ⟨b', hb', hSpelled⟩ := ih hRest hx
      exact ⟨b', List.mem_cons_of_mem _ hb', hSpelled⟩

theorem SpelledBy.node {b : Blueprint} (h : b.SpelledBy a x) :
    ∃ r, a.get? x = some r ∧ r.node = b.node := by
  cases b with
  | placeholder n =>
    obtain ⟨r, hr, hNode, -⟩ := h
    exact ⟨r, hr, hNode⟩
  | scope n bullet children references =>
    obtain ⟨r, hr, hNode, -⟩ := h
    exact ⟨r, hr, hNode⟩

mutual

/-- A scope spells no more than one blueprint. -/
theorem SpelledBy.unique : (b b' : Blueprint) → (x : ScopeId) → b.SpelledBy a x →
    b'.SpelledBy a x → b = b'
  | placeholder n, placeholder n', x, h, h' => by
    obtain ⟨r, hr, rfl, -⟩ := h
    obtain ⟨r', hr', rfl, -⟩ := h'
    obtain rfl := Option.some.inj (hr.symm.trans hr')
    rfl
  | placeholder n, scope n' bullet' children' references', x, h, h' => by
    obtain ⟨r, hr, -, hp, -⟩ := h
    obtain ⟨r', hr', -, hp', -⟩ := h'
    obtain rfl := Option.some.inj (hr.symm.trans hr')
    rw [hp] at hp'
    cases hp'
  | scope n bullet children references, placeholder n', x, h, h' => by
    obtain ⟨r, hr, -, hp, -⟩ := h
    obtain ⟨r', hr', -, hp', -⟩ := h'
    obtain rfl := Option.some.inj (hr.symm.trans hr')
    rw [hp] at hp'
    cases hp'
  | scope n bullet children references, scope n' bullet' children' references', x, h, h' => by
    obtain ⟨r, hr, rfl, -, rfl, hChildren, hReferences⟩ := h
    obtain ⟨r', hr', rfl, -, rfl, hChildren', hReferences'⟩ := h'
    obtain rfl := Option.some.inj (hr.symm.trans hr')
    rw [AllSpelledBy.unique children children' _ hChildren hChildren',
      AllSpelledBy.unique references references' _ hReferences hReferences']

theorem AllSpelledBy.unique : (bs bs' : List Blueprint) → (xs : List ScopeId) →
    AllSpelledBy a bs xs → AllSpelledBy a bs' xs → bs = bs'
  | [], [], _, _, _ => rfl
  | [], b' :: rest', xs, h, h' => by
    obtain rfl : xs = [] := h
    obtain ⟨x, xs', hxs, -⟩ := h'
    cases hxs
  | b :: rest, [], xs, h, h' => by
    obtain rfl : xs = [] := h'
    obtain ⟨x, xs', hxs, -⟩ := h
    cases hxs
  | b :: rest, b' :: rest', xs, h, h' => by
    obtain ⟨x, xs, rfl, hb, hRest⟩ := h
    obtain ⟨x', xs', hxs, hb', hRest'⟩ := h'
    cases hxs
    rw [SpelledBy.unique b b' x hb hb', AllSpelledBy.unique rest rest' xs hRest hRest']

end

/-- One record says what another one says, about scopes under other ids. -/
structure Resembles (f : ScopeId → ScopeId) (r r' : ScopeRecord) : Prop where
  node : r'.node = r.node
  placeholder : r'.placeholder = r.placeholder
  bullet : r'.bullet = r.bullet
  children : r'.children = r.children.map f
  references : r'.transcluded.map Prod.snd = (r.transcluded.map Prod.snd).map f

theorem Resembles.owned {f : ScopeId → ScopeId} {r r' : ScopeRecord} (h : Resembles f r r') :
    r'.owned = r.owned.map f := by
  rw [ScopeRecord.owned, ScopeRecord.owned, List.map_append, h.children, h.references]

/-- A scope goes to one that spells the same, either altogether or by a record that resembles its own
and scopes for which this holds in turn. -/
def Goes (a a' : Arena ScopeRecord) (f : ScopeId → ScopeId) (P : ScopeId → Prop) : Prop :=
  ∀ x r, P x → a.get? x = some r → (∀ b : Blueprint, b.SpelledBy a x → b.SpelledBy a' (f x)) ∨
    ((∃ r', a'.get? (f x) = some r' ∧ Resembles f r r') ∧ ∀ c ∈ r.owned, P c)

mutual

theorem SpelledBy.transfer {f : ScopeId → ScopeId} {P : ScopeId → Prop} (hGoes : Goes a a' f P) :
    (b : Blueprint) → (x : ScopeId) → P x → b.SpelledBy a x → b.SpelledBy a' (f x)
  | placeholder n, x, hx, h => by
    obtain ⟨r, hr, hNode, hPlaceholder, hOwned⟩ := id h
    rcases hGoes x r hx hr with hAll | ⟨⟨r', hr', hSame⟩, -⟩
    · exact hAll _ h
    · exact ⟨r', hr', hSame.node.trans hNode, hSame.placeholder.trans hPlaceholder, by
        rw [hSame.owned, hOwned, List.map_nil]⟩
  | scope n bullet children references, x, hx, h => by
    obtain ⟨r, hr, hNode, hPlaceholder, hBullet, hChildren, hReferences⟩ := id h
    rcases hGoes x r hx hr with hAll | ⟨⟨r', hr', hSame⟩, hP⟩
    · exact hAll _ h
    · refine ⟨r', hr', hSame.node.trans hNode, hSame.placeholder.trans hPlaceholder,
        hSame.bullet.trans hBullet, ?_, ?_⟩
      · rw [hSame.children]
        exact AllSpelledBy.transfer hGoes children _
          (fun c hc => hP c (List.mem_append_left _ hc)) hChildren
      · rw [hSame.references]
        exact AllSpelledBy.transfer hGoes references _
          (fun c hc => hP c (List.mem_append_right _ hc)) hReferences

theorem AllSpelledBy.transfer {f : ScopeId → ScopeId} {P : ScopeId → Prop}
    (hGoes : Goes a a' f P) : (bs : List Blueprint) → (xs : List ScopeId) → (∀ x ∈ xs, P x) →
    AllSpelledBy a bs xs → AllSpelledBy a' bs (xs.map f)
  | [], xs, _, h => by
    obtain rfl : xs = [] := h
    rfl
  | b :: rest, xs, hxs, h => by
    obtain ⟨x, xs, rfl, hb, hRest⟩ := h
    rw [List.forall_mem_cons] at hxs
    exact ⟨f x, xs.map f, rfl, SpelledBy.transfer hGoes b x hxs.1 hb,
      AllSpelledBy.transfer hGoes rest xs hxs.2 hRest⟩

end

theorem resembles_id (r : ScopeRecord) : Resembles id r r :=
  ⟨rfl, rfl, rfl, by simp, by simp⟩

/-- Scopes that keep their records spell what they spelled. -/
theorem goes_of_kept {P : ScopeId → Prop}
    (h : ∀ x r, P x → a.get? x = some r → a'.get? x = some r ∧ ∀ c ∈ r.owned, P c) :
    Goes a a' id P :=
  fun x r hx hr => Or.inr ⟨⟨r, (h x r hx hr).1, resembles_id r⟩, (h x r hx hr).2⟩

/-! ## Planting -/

/-- New scopes own new scopes only, so later changes of old ones do not touch what they spell. -/
theorem goes_of_grown {a₀ : Arena ScopeRecord} {tops : List ScopeId} (hg : Grown a₀ a tops)
    (hKept : ∀ x r, a₀.get? x = none → a.get? x = some r → a'.get? x = some r) :
    Goes a a' id (fun x => a₀.get? x = none) :=
  goes_of_kept fun x r hx hr => ⟨hKept x r hx hr, hg.owned_new x r hx hr⟩

theorem AllSpelledBy.later {a₀ : Arena ScopeRecord} {bs : List Blueprint} {tops : List ScopeId}
    (h : AllSpelledBy a bs tops) (hg : Grown a₀ a tops)
    (hKept : ∀ x r, a₀.get? x = none → a.get? x = some r → a'.get? x = some r) :
    AllSpelledBy a' bs tops := by
  have h' := AllSpelledBy.transfer (goes_of_grown hg hKept) bs tops hg.tops_new h
  rwa [List.map_id] at h'

mutual

/-- The scope at the top of a planted blueprint spells it. -/
theorem plant_spelled {a : Arena ScopeRecord} (ha : a.Sound) (parent : Option ScopeId)
    (transclusion : Bool) : (b : Blueprint) → b.Keyed →
    b.SpelledBy (b.plant a parent transclusion).2 (b.plant a parent transclusion).1
  | placeholder n, _ => by
    rw [plant]
    exact ⟨_, get?_alloc_self ha _, rfl, rfl, rfl⟩
  | scope n bullet children references, hb => by
    obtain ⟨-, hChildren, hReferences⟩ := hb
    let v := (scope n bullet children references).record parent transclusion
    have hSelf := get?_alloc_self ha v
    have hSound := ha.alloc v
    rw [plant]
    simp only
    generalize (a.alloc v).1 = id at *
    generalize (a.alloc v).2 = a₀ at *
    obtain ⟨hg, -⟩ := plantAll_grown hSound id false children hChildren
    have hSpelled := plantAll_spelled hSound id false children hChildren
    generalize plantAll a₀ id false children = planted at *
    obtain ⟨hg', hs'⟩ := plantAll_grown hg.sound id true references hReferences
    have hSpelled' := plantAll_spelled hg.sound id true references hReferences
    generalize plantAll planted.2 id true references = planted' at *
    have hIds := List.map_snd_zip (Nat.le_of_eq hs'.length_eq.symm)
    have hid := hg'.kept id v (hg.kept id v hSelf)
    -- The links of the scope on top are set last, when those below it have been made.
    refine ⟨_, get?_modify_of_some hid _, rfl, rfl, rfl, ?_, ?_⟩
    · refine AllSpelledBy.later hSpelled hg fun x r hx hr => ?_
      rw [get?_modify_of_ne]
      · exact hg'.kept x r hr
      · rintro rfl
        rw [hSelf] at hx
        cases hx
    · rw [hIds]
      refine AllSpelledBy.later hSpelled' hg' fun x r hx hr => ?_
      rwa [get?_modify_of_ne]
      rintro rfl
      rw [hg.kept x v hSelf] at hx
      cases hx

theorem plantAll_spelled {a : Arena ScopeRecord} (ha : a.Sound) (owner : ScopeId)
    (transclusion : Bool) : (bs : List Blueprint) → AllKeyed bs →
    AllSpelledBy (plantAll a owner transclusion bs).2 bs (plantAll a owner transclusion bs).1
  | [], _ => rfl
  | b :: rest, hb => by
    obtain ⟨hg, -⟩ := plant_grown ha (some owner) transclusion b hb.1
    obtain ⟨hg', -⟩ := plantAll_grown hg.sound owner transclusion rest hb.2
    rw [plantAll]
    refine ⟨_, _, rfl, ?_, plantAll_spelled hg.sound owner transclusion rest hb.2⟩
    exact SpelledBy.transfer (goes_of_grown hg fun x r _ hr => hg'.kept x r hr) b _
      (hg.tops_new _ (List.mem_singleton_self _))
      (plant_spelled ha (some owner) transclusion b hb.1)

end

end Blueprint

/-! ## Unfolding -/

namespace Document

variable {d : Document} {path : List NodeId} {id : NodeId}

/-- More fuel than there are nodes left does not unfold more. -/
theorem unfoldWithin_of_room {fuel fuel' : Nat} (h : d.room path < fuel)
    (h' : d.room path < fuel') : d.unfoldWithin fuel path id = d.unfoldWithin fuel' path id := by
  induction fuel generalizing path id fuel' with
  | zero => cases h
  | succ fuel ih =>
    obtain ⟨fuel', rfl⟩ : ∃ k, fuel' = k + 1 := ⟨fuel' - 1, by omega⟩
    by_cases hid : id ∈ path ∨ d.node? id = none
    · rw [unfoldWithin_eq_placeholder hid, unfoldWithin_eq_placeholder hid]
    · rw [not_or] at hid
      obtain ⟨n, hn⟩ := Option.ne_none_iff_exists'.mp hid.2
      have hLess := room_cons_lt hn hid.1
      have hSame : d.unfoldWithin fuel (id :: path) = d.unfoldWithin fuel' (id :: path) := by
        funext c
        exact ih (by omega) (by omega)
      rw [unfoldWithin_eq_scope hid.1 hn, unfoldWithin_eq_scope hid.1 hn, hSame]

/-- A node unfolds to what its children and references unfold to below it. -/
theorem unfold_eq_scope {n : Node} (hid : id ∉ path) (hn : d.node? id = some n) :
    d.unfold path id = .scope id (bulletOrLiteral n.value.toList)
      (n.children.map (d.unfold (id :: path)))
      ((bulletOrLiteral n.value.toList).referencedIds.map (d.unfold (id :: path))) := by
  have hRoom := d.room_le path
  have hLess := room_cons_lt hn hid
  have hSame : d.unfoldWithin d.size (id :: path) = d.unfold (id :: path) := by
    funext c
    exact unfoldWithin_of_room (by omega) (by omega)
  rw [unfold, unfoldWithin_eq_scope hid hn, hSame]

theorem unfold_eq_placeholder (h : id ∈ path ∨ d.node? id = none) :
    d.unfold path id = .placeholder id := unfoldWithin_eq_placeholder h

end Document

/-! ## Places in a tree -/

namespace ScopeTree

variable {t : ScopeTree} {d : Document} {p c x : ScopeId} {r : ScopeRecord}

/-- The nodes above a scope, from its parent upward. -/
def pathOf (t : ScopeTree) (x : ScopeId) : List NodeId := (t.ancestors x).map (·.2.node)

theorem Rooted.pathOf_root (h : t.Rooted) : t.pathOf t.root = [] := by
  rw [pathOf, ancestors, h.parent?_root]
  rfl

theorem Rooted.pathOf_of_owns (h : t.Rooted) (hp : t.record? p = some r) (hc : c ∈ r.owned) :
    t.pathOf c = r.node :: t.pathOf p := by
  rw [pathOf, ancestors, h.parent?_of_owns ⟨r, hp, hc⟩]
  simp only
  rw [h.upward_eq hp, List.map_cons]
  rfl

/-- Each scope of a tree spells what its node unfolds to below the nodes above it. -/
theorem Rooted.spelled_at (h : t.Rooted) (hRoot : (d.unfold [] d.root).SpelledBy t.arena t.root)
    (hr : t.record? x = some r) : (d.unfold (t.pathOf x) r.node).SpelledBy t.arena x := by
  have hReached := h.reached x r hr
  induction hReached generalizing r with
  | refl =>
    obtain ⟨s, hs, hNode⟩ := hRoot.node
    obtain rfl := Option.some.inj (hr.symm.trans hs)
    rw [h.pathOf_root, hNode, d.node_unfold]
    exact hRoot
  | @tail p c _ hOwns ih =>
    obtain ⟨rp, hp, hc⟩ := hOwns
    have hSpelled := ih hp
    rw [h.pathOf_of_owns hp hc]
    by_cases hStop : rp.node ∈ t.pathOf p ∨ d.node? rp.node = none
    · rw [Document.unfold_eq_placeholder hStop] at hSpelled
      obtain ⟨s, hs, -, -, hOwned⟩ := hSpelled
      obtain rfl := Option.some.inj (hs.symm.trans hp)
      rw [hOwned] at hc
      cases hc
    · rw [not_or] at hStop
      obtain ⟨n, hn⟩ := Option.ne_none_iff_exists'.mp hStop.2
      rw [Document.unfold_eq_scope hStop.1 hn] at hSpelled
      obtain ⟨s, hs, -, -, -, hChildren, hReferences⟩ := hSpelled
      obtain rfl := Option.some.inj (hs.symm.trans hp)
      have hBelow : ∀ {ids : List NodeId} {xs : List ScopeId}, c ∈ xs →
          Blueprint.AllSpelledBy t.arena (ids.map (d.unfold (s.node :: t.pathOf p))) xs →
          (d.unfold (s.node :: t.pathOf p) r.node).SpelledBy t.arena c := by
        intro ids xs hMem hAll
        obtain ⟨b, hb, hSpelled⟩ := hAll.exists_of_mem hMem
        obtain ⟨k, -, rfl⟩ := List.mem_map.mp hb
        obtain ⟨s', hs', hNode⟩ := hSpelled.node
        obtain rfl := Option.some.inj (hr.symm.trans hs')
        rwa [hNode, d.node_unfold]
      rcases List.mem_append.mp hc with hc | hc
      · exact hBelow hc hChildren
      · exact hBelow hc hReferences

end ScopeTree

end FormulaOutline
