import FormulaOutline.Pattern.Apply
import FormulaOutline.Proofs.Scope.NaturalScopes

/-!
# Places in a tree

What patterns ask of a tree: the scopes above a scope, the siblings before and after it, and whether a
formula stands right beside or below another scope.

* `Rooted.upward_eq`: the way up from a scope goes on from its parent.
* `Rooted.exists_split`: a scope among its siblings.
* `placement?_eq_some_iff`: the place of a formula is told by the children of its parent.
* `siblingRule?_next`, `siblingRule?_prev`: the rules for siblings.
-/

namespace FormulaOutline

open Formula

/-- The node to which an argument refers as a whole. -/
def Formula.Argument.target? (arg : Argument Expr) : Option NodeId :=
  match arg.value with
  | .reference _ target => some target
  | _ => none

/-- Of two members of a list one stands before the other. -/
theorem split_two {α : Type} {l : List α} {x y : α} (hx : x ∈ l) (hy : y ∈ l) (hxy : x ≠ y) :
    ∃ s m q, l = s ++ x :: (m ++ y :: q) ∨ l = s ++ y :: (m ++ x :: q) := by
  obtain ⟨s, r, rfl⟩ := List.append_of_mem hx
  rcases List.mem_append.mp hy with hy | hy
  · obtain ⟨s, m, rfl⟩ := List.append_of_mem hy
    exact ⟨s, m, r, Or.inr (by simp)⟩
  · obtain ⟨m, q, rfl⟩ := List.append_of_mem ((List.mem_cons.mp hy).resolve_left (Ne.symm hxy))
    exact ⟨s, m, q, Or.inl rfl⟩

theorem drop_succ_length {α : Type} (s : List α) (x : α) (r : List α) :
    (s ++ x :: r).drop (s.length + 1) = r := by
  simp

namespace ScopeTree

variable {t : ScopeTree} {x y p : ScopeId} {r : ScopeRecord} {s : List ScopeId}

/-! ## Ways up -/

theorem upwardWithin_succ (h : t.Rooted) {fuel k : Nat} (hx : t.Descends t.root k x)
    (hFuel : k < fuel) : t.upwardWithin fuel x = t.upwardWithin (fuel + 1) x := by
  induction hx generalizing fuel with
  | here =>
    obtain ⟨fuel, rfl⟩ : ∃ f, fuel = f + 1 := ⟨fuel - 1, by omega⟩
    obtain ⟨r, hr, hParent, -⟩ := h.root
    simp [upwardWithin, hr, hParent]
  | @step k p x _ hOwns ih =>
    obtain ⟨fuel, rfl⟩ : ∃ f, fuel = f + 1 := ⟨fuel - 1, by omega⟩
    obtain ⟨r, hr, hParent⟩ := h.live_of_owns hOwns
    rw [upwardWithin, upwardWithin, hr]
    simp only [hParent, ih (by omega : k < fuel)]

/-- The way up from a scope goes on from its parent. -/
theorem Rooted.upward_eq (h : t.Rooted) (hx : t.record? x = some r) :
    t.upward x = (x, r) :: t.ancestors x := by
  have hParent : t.parent? x = r.parent := by rw [parent?, hx, Option.bind_some]
  obtain ⟨k, hk⟩ := h.depth_exists ⟨r, hx⟩
  have hDepth := h.depth_lt hk
  rw [ancestors, hParent]
  simp only [upward]
  obtain ⟨fuel, hFuel⟩ : ∃ f, t.arena.slots.size = f + 1 := ⟨t.arena.slots.size - 1, by omega⟩
  rw [hFuel, upwardWithin, hx]
  cases hp : r.parent with
  | none => simp only [hp]
  | some p =>
    simp only [hp]
    cases hk with
    | here =>
      obtain ⟨s, hs, hNone, -⟩ := h.root
      obtain rfl := Option.some.inj (hs.symm.trans hx)
      rw [hp] at hNone
      cases hNone
    | step hq hOwns =>
      obtain ⟨s, hs, hq'⟩ := h.live_of_owns hOwns
      obtain rfl := Option.some.inj (hs.symm.trans hx)
      obtain rfl := Option.some.inj (hp.symm.trans hq')
      rw [upwardWithin_succ h hq (by omega)]

/-- The scopes above a scope, from its parent upward. -/
def above (t : ScopeTree) (x : ScopeId) : List ScopeId := (t.ancestors x).map Prod.fst

theorem above_of_parent? (h : t.Rooted) (hp : t.parent? x = some p) (hLive : t.record? p = some r) :
    t.above x = p :: t.above p := by
  rw [above, ancestors, hp]
  simp only
  rw [h.upward_eq hLive]
  rfl

theorem above_of_parent?_none (hp : t.parent? x = none) : t.above x = [] := by
  rw [above, ancestors, hp]
  rfl

theorem Rooted.natural_of_mem_above (h : t.Rooted) (hx : t.Natural x) (hy : y ∈ t.above x) :
    t.Natural y := by
  induction hx with
  | refl =>
    rw [above_of_parent?_none h.parent?_root] at hy
    cases hy
  | tail hp hc ih =>
    obtain ⟨r, hr⟩ := h.live_of_natural hp
    rw [above_of_parent? h (h.parent?_of_mem_children hc) hr] at hy
    rcases List.mem_cons.mp hy with rfl | hy
    · exact hp
    · exact ih hy

theorem find?_ancestors (t : ScopeTree) (x : ScopeId) (q : ScopeId → Bool) :
    ((t.ancestors x).find? fun e => q e.1).map (·.2.node) = ((t.above x).find? q).bind t.node? := by
  rw [above, List.find?_map]
  change _ = ((List.find? (fun e => q e.1) (t.ancestors x)).map Prod.fst).bind t.node?
  cases hFound : (t.ancestors x).find? fun e => q e.1 with
  | none => rfl
  | some e =>
    have hMem := List.mem_of_find?_eq_some hFound
    have hRecord : t.record? e.1 = some e.2 := by
      rw [ancestors] at hMem
      split at hMem
      · cases hMem
      · exact record?_of_mem_upwardWithin hMem
    rw [Option.map_some, Option.map_some, Option.bind_some, node?, hRecord, Option.map_some]

theorem isClosestAncestor_eq (t : ScopeTree) (type : ValueType) (x y : ScopeId) :
    Pattern.isClosestAncestor t type x y =
      ((t.above y).find? (fun z => z = x || t.valueType? z = some type) == some x) := by
  rw [Pattern.isClosestAncestor, above, List.find?_map]
  change _ = (((t.ancestors y).find? fun e => decide (e.1 = x) || decide (t.valueType? e.1 = some type)).map
    Prod.fst == some x)
  cases (t.ancestors y).find? fun e => decide (e.1 = x) || decide (t.valueType? e.1 = some type) with
  | none => rfl
  | some e =>
    obtain ⟨z, r⟩ := e
    by_cases hz : z = x <;> simp [hz]

/-! ## Siblings -/

theorem indexInParent?_of_split {r : List ScopeId} (hp : t.parent? x = some p)
    (hc : t.children p = s ++ x :: r) (hx : x ∉ s) : t.indexInParent? x = some s.length := by
  have hNone : s.findIdx? (· == x) = none := by
    rw [List.findIdx?_eq_none_iff]
    intro y hy
    rw [beq_eq_false_iff_ne]
    rintro rfl
    exact hx hy
  rw [indexInParent?, hp]
  simp [hc, List.findIdx?_append, hNone, List.findIdx?_cons]

theorem Rooted.nodup_children (h : t.Rooted) (p : ScopeId) : (t.children p).Nodup := by
  cases hr : t.record? p with
  | none =>
    rw [children, hr]
    exact List.nodup_nil
  | some r =>
    rw [children_of_record? hr]
    exact (List.nodup_append.mp (h.linked p r hr).nodup).1

/-- A scope with a parent stands somewhere among the parent's children, or has no place there. -/
theorem Rooted.exists_split (h : t.Rooted) (hx : x ∈ t.children p) :
    ∃ s r, t.children p = s ++ x :: r ∧ x ∉ s ∧ x ∉ r ∧ t.indexInParent? x = some s.length := by
  obtain ⟨s, r, hc⟩ := List.append_of_mem hx
  have hNodup := h.nodup_children p
  rw [hc, List.nodup_append, List.nodup_cons] at hNodup
  have hs : x ∉ s := fun hMem => hNodup.2.2 x hMem x List.mem_cons_self rfl
  exact ⟨s, r, hc, hs, hNodup.2.1.1, indexInParent?_of_split (h.parent?_of_mem_children hx) hc hs⟩

/-- Two siblings with what stands before, between and behind them. -/
theorem Rooted.indices_of_split (h : t.Rooted) {m q : List ScopeId}
    (hc : t.children p = s ++ x :: (m ++ y :: q)) :
    t.parent? x = some p ∧ t.parent? y = some p ∧ t.indexInParent? x = some s.length ∧
      t.indexInParent? y = some (s.length + m.length + 1) := by
  have hNodup := h.nodup_children p
  have hParent := fun z (hz : z ∈ t.children p) => h.parent?_of_mem_children hz
  have hx := hParent x (by rw [hc]; simp)
  have hy := hParent y (by rw [hc]; simp)
  refine ⟨hx, hy, indexInParent?_of_split hx hc ?_, ?_⟩
  · rw [hc, List.nodup_append] at hNodup
    exact fun hMem => hNodup.2.2 x hMem x List.mem_cons_self rfl
  · have hc' : t.children p = (s ++ x :: m) ++ y :: q := by rw [hc]; simp
    have hIndex : t.indexInParent? y = some (s ++ x :: m).length := by
      refine indexInParent?_of_split hy hc' ?_
      rw [hc', List.nodup_append] at hNodup
      exact fun hMem => hNodup.2.2 y hMem y List.mem_cons_self rfl
    rw [hIndex, List.length_append, List.length_cons, Nat.add_assoc]

theorem indices_of_infix (h : t.Rooted) (hc : [x, y] <:+: t.children p) :
    t.parent? x = some p ∧ t.parent? y = some p ∧
      ∃ i, t.indexInParent? x = some i ∧ t.indexInParent? y = some (i + 1) := by
  obtain ⟨s, r, hc⟩ := hc
  have hSplit : t.children p = s ++ x :: ([] ++ y :: r) := by rw [← hc]; simp
  obtain ⟨hx, hy, hi, hk⟩ := h.indices_of_split hSplit
  exact ⟨hx, hy, _, hi, hk⟩

theorem infix_of_indices (h : t.Rooted) {i : Nat} (hx : x ∈ t.children p) (hy : y ∈ t.children p)
    (hi : t.indexInParent? x = some i) (hi' : t.indexInParent? y = some (i + 1)) :
    [x, y] <:+: t.children p := by
  obtain ⟨s, r, hc, -, -, hIndex⟩ := h.exists_split hx
  obtain ⟨s', r', hc', -, -, hIndex'⟩ := h.exists_split hy
  rw [hi, Option.some.injEq] at hIndex
  rw [hi', Option.some.injEq] at hIndex'
  have hLists : (s ++ [x]) ++ r = s' ++ y :: r' := by rw [← hc', hc]; simp
  obtain ⟨rfl, rfl⟩ := List.append_inj hLists (by simp; omega)
  exact ⟨s, r', by rw [hc]; simp⟩

/-- A formula stands right beside or below its anchor. -/
def Placed (t : ScopeTree) (anchor formula : ScopeId) : Placement → Prop
  | .child => formula ∈ t.children anchor
  | .below => ∃ p, [anchor, formula] <:+: t.children p
  | .above => ∃ p, [formula, anchor] <:+: t.children p

theorem mem_children_of_indexInParent? {i : Nat} (hi : t.indexInParent? x = some i) :
    ∃ p, t.parent? x = some p ∧ x ∈ t.children p := by
  rw [indexInParent?] at hi
  cases hp : t.parent? x with
  | none =>
    rw [hp] at hi
    cases hi
  | some p =>
    rw [hp] at hi
    obtain ⟨hlt, hx, -⟩ := List.findIdx?_eq_some_iff_getElem.mp hi
    exact ⟨p, rfl, beq_iff_eq.mp hx ▸ List.getElem_mem hlt⟩

theorem mem_children_of_parent? (h : t.Rooted) (hx : t.isTransclusion x = false)
    (hp : t.parent? x = some p) : x ∈ t.children p := by
  cases hr : t.record? x with
  | none =>
    rw [parent?, hr] at hp
    cases hp
  | some r =>
    rw [parent?, hr, Option.bind_some] at hp
    obtain ⟨ro, hro, hMem⟩ := h.owns_of_parent hr hp
    rw [children_of_record? hro]
    rcases List.mem_append.mp hMem with hMem | hMem
    · exact hMem
    · -- What a scope owns without having it as a child is flagged.
      obtain ⟨e, he, rfl⟩ := List.mem_map.mp hMem
      obtain ⟨s, hs, -, hFlag, -⟩ := (h.linked p ro hro).reference e he
      rw [isTransclusion, show t.record? e.2 = some s from hs, Option.map_some, Option.getD_some,
        hFlag] at hx
      cases hx

/-- The place of a formula that is not a reference is told by the children of its parent. -/
theorem placement?_eq_some_iff (h : t.Rooted) (hx : t.isTransclusion x = false)
    {placement : Placement} :
    Pattern.placement? t x y = some placement ↔ t.Placed y x placement := by
  have hApart : ∀ p, t.parent? x = some p → y ∈ t.children p → t.parent? x ≠ some y := by
    intro p hp hy hEq
    obtain rfl := Option.some.inj (hp.symm.trans hEq)
    exact h.not_reaches_owner (owns_of_mem_children hy) .refl
  rw [Pattern.placement?]
  constructor
  · intro hPlacement
    split at hPlacement
    · rename_i hChild
      cases hPlacement
      exact mem_children_of_parent? h hx hChild
    · split at hPlacement
      · cases hPlacement
      · rename_i hSame
        have hSame : t.parent? x = t.parent? y := by simpa [Pattern.haveSameParent] using hSame
        split at hPlacement
        · rename_i i k hi hk
          obtain ⟨p, hp, hxp⟩ := mem_children_of_indexInParent? hi
          obtain ⟨q, hq, hyq⟩ := mem_children_of_indexInParent? hk
          obtain rfl : p = q := Option.some.inj (hp.symm.trans (hSame.trans hq))
          split at hPlacement
          · rename_i hNext
            cases hPlacement
            exact ⟨p, infix_of_indices h hyq hxp hk (hNext ▸ hi)⟩
          · split at hPlacement
            · rename_i hNext
              cases hPlacement
              exact ⟨p, infix_of_indices h hxp hyq hi (hNext ▸ hk)⟩
            · cases hPlacement
        · cases hPlacement
  · intro hPlaced
    cases placement with
    | child => rw [if_pos (h.parent?_of_mem_children hPlaced)]
    | below =>
      obtain ⟨p, hInfix⟩ := hPlaced
      obtain ⟨hy, hx, i, hi, hk⟩ := indices_of_infix h hInfix
      rw [if_neg (hApart p hx (hInfix.subset (by simp))), Pattern.haveSameParent, hx, hy]
      simp [hi, hk]
    | above =>
      obtain ⟨p, hInfix⟩ := hPlaced
      obtain ⟨hx, hy, i, hi, hk⟩ := indices_of_infix h hInfix
      rw [if_neg (hApart p hx (hInfix.subset (by simp))), Pattern.haveSameParent, hx, hy]
      simp [hi, hk]
      omega

/-- An argument gives an anchor when it refers to a scope of the declared type that is placed beside
the formula. -/
theorem anchor?_eq_some_iff {parameters : List ParameterSpec} {arg : Argument Expr} {index : Nat}
    {anchor : Anchor} : Pattern.anchor? t parameters x arg index = some (y, anchor) ↔
      (∃ n, arg.target? = some n ∧ t.scopeForNode? n = some y) ∧
      t.valueType? y = some anchor.type ∧
      (Pattern.declared? parameters arg index).getD ⟨arg.name.getD (toString index), anchor.type⟩ =
        ⟨anchor.name, anchor.type⟩ ∧
      Pattern.placement? t x y = some anchor.placement := by
  obtain ⟨name, value, span⟩ := arg
  cases value with
  | reference s target =>
    rw [Pattern.anchor?]
    simp only [Argument.target?, Option.some.injEq, exists_eq_left', bind]
    cases t.scopeForNode? target with
    | none => simp
    | some found =>
      simp only [Option.bind_some, Option.some.injEq]
      constructor
      · intro hAnchor
        obtain ⟨actual, hType, hAnchor⟩ := Option.bind_eq_some_iff.mp hAnchor
        split at hAnchor
        · cases hAnchor
        · rename_i hSpec
          obtain ⟨placement, hPlacement, hEq⟩ := Option.bind_eq_some_iff.mp hAnchor
          cases hEq
          have hActual := not_not.mp hSpec
          refine ⟨rfl, hActual ▸ hType, ?_, hPlacement⟩
          rw [← hActual]
          exact congrArg (ParameterSpec.mk _) hActual.symm
      · rintro ⟨rfl, hType, hSpec, hPlacement⟩
        rw [hType, Option.bind_some]
        simp only [hSpec, ne_eq, not_true_eq_false, if_false, hPlacement, Option.bind_some]
  | _ => simp [Pattern.anchor?, Argument.target?]

/-- What stands beside or below a natural scope is natural. -/
theorem natural_of_placed (h : t.Rooted) (hy : t.Natural y) {placement : Placement}
    (hPlaced : t.Placed y x placement) : t.Natural x := by
  have hSibling : ∀ {p}, x ∈ t.children p → y ∈ t.children p → t.Natural x := fun hx hyp =>
    (h.parent_of_natural hy (h.parent?_of_mem_children hyp)).1.child hx
  cases placement with
  | child => exact hy.child hPlaced
  | below =>
    obtain ⟨p, hInfix⟩ := hPlaced
    exact hSibling (hInfix.subset (by simp)) (hInfix.subset (by simp))
  | above =>
    obtain ⟨p, hInfix⟩ := hPlaced
    exact hSibling (hInfix.subset (by simp)) (hInfix.subset (by simp))

/-- A rule finds the node of a natural scope. -/
theorem exists_of_findNode? (h : t.Rooted) (hx : t.Natural x) {rule : Rule} {n : NodeId}
    (hFound : Pattern.findNode? t x rule = some n) : ∃ y, t.Natural y ∧ t.node? y = some n := by
  have hChild : ∀ p c, t.parent? x = some p → c ∈ t.children p → t.Natural c := fun p c hp hc =>
    (h.parent_of_natural hx hp).1.child hc
  cases rule with
  | anchor => exact ⟨x, hx, hFound⟩
  | literal _ => cases hFound
  | closestAncestor type =>
    rw [Pattern.findNode?, find?_ancestors t x fun above => t.valueType? above = some type] at hFound
    obtain ⟨y, hy, hNode⟩ := Option.bind_eq_some_iff.mp hFound
    exact ⟨y, h.natural_of_mem_above hx (List.mem_of_find?_eq_some hy), hNode⟩
  | prevSibling type =>
    obtain ⟨p, hp, hFound⟩ := Option.bind_eq_some_iff.mp hFound
    obtain ⟨i, -, hFound⟩ := Option.bind_eq_some_iff.mp hFound
    obtain ⟨y, hy, hNode⟩ := Option.bind_eq_some_iff.mp hFound
    exact ⟨y, hChild p y hp (List.mem_of_mem_take (List.mem_reverse.mp
      (List.mem_of_find?_eq_some hy))), hNode⟩
  | nextSibling type =>
    obtain ⟨p, hp, hFound⟩ := Option.bind_eq_some_iff.mp hFound
    obtain ⟨i, -, hFound⟩ := Option.bind_eq_some_iff.mp hFound
    obtain ⟨y, hy, hNode⟩ := Option.bind_eq_some_iff.mp hFound
    exact ⟨y, hChild p y hp (List.mem_of_mem_drop (List.mem_of_find?_eq_some hy)), hNode⟩

/-! ## Rules for siblings -/

variable {m q : List ScopeId} {type : ValueType}

/-- The rule for a sibling behind the anchor. -/
theorem siblingRule?_next (h : t.Rooted) (hc : t.children p = s ++ x :: (m ++ y :: q)) :
    Pattern.siblingRule? t type y x =
      if m.any (t.valueType? · = some type) then none else some (.nextSibling type) := by
  obtain ⟨hx, hy, hi, hk⟩ := h.indices_of_split hc
  have hLow : min s.length (s.length + m.length + 1) = s.length := by omega
  have hHigh : max s.length (s.length + m.length + 1) - s.length - 1 = m.length := by omega
  have hBehind : ¬ s.length + m.length + 1 < s.length := by omega
  have hBefore : s.length < s.length + m.length + 1 := by omega
  simp only [Pattern.siblingRule?, hx, hy, hi, hk, bind, Option.bind_some, hLow, hHigh, hc,
    drop_succ_length, List.take_left, ne_eq, not_true_eq_false, if_false, hBehind, hBefore, if_true]

/-- The rule for a sibling before the anchor. -/
theorem siblingRule?_prev (h : t.Rooted) (hc : t.children p = s ++ x :: (m ++ y :: q)) :
    Pattern.siblingRule? t type x y =
      if m.any (t.valueType? · = some type) then none else some (.prevSibling type) := by
  obtain ⟨hx, hy, hi, hk⟩ := h.indices_of_split hc
  have hLow : min (s.length + m.length + 1) s.length = s.length := by omega
  have hHigh : max (s.length + m.length + 1) s.length - s.length - 1 = m.length := by omega
  have hBefore : s.length < s.length + m.length + 1 := by omega
  simp only [Pattern.siblingRule?, hx, hy, hi, hk, bind, Option.bind_some, hLow, hHigh, hc,
    drop_succ_length, List.take_left, ne_eq, not_true_eq_false, if_false, hBefore, if_true]

/-- A scope is no sibling of itself. -/
theorem siblingRule?_self (t : ScopeTree) (type : ValueType) (x : ScopeId) :
    Pattern.siblingRule? t type x x = none := by
  rw [Pattern.siblingRule?]
  cases hp : t.parent? x with
  | none => rfl
  | some p =>
    cases hi : t.indexInParent? x with
    | none => simp [bind]
    | some i => simp [bind]

theorem siblingRule?_of_ne (hxy : t.parent? x ≠ t.parent? y) :
    Pattern.siblingRule? t type x y = none := by
  rw [Pattern.siblingRule?]
  cases hp : t.parent? y with
  | none => rfl
  | some p =>
    rw [hp] at hxy
    simp [bind, hxy]

end ScopeTree

end FormulaOutline
