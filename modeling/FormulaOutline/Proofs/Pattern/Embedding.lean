import FormulaOutline.Proofs.Pattern.Learning

/-!
# Patterns in a tree and in a larger one

A tree is part of a larger one when its natural scopes are among those of the other, in their order and
with what they say. If no value of the further scopes has a type that a pattern looks for, the pattern
finds the same in both trees, and the same pattern is learned from a formula in both.

* `Embeds`: the natural scopes of a tree are among those of another one.
* `split_of_filter`, `find?_of_filter`: lists with further members.
* `Embeds.synthesize`: the formula that belongs to a scope.
* `Embeds.learned`: the pattern of an example.
-/

namespace FormulaOutline

open Relation Formula ScopeTree

/-! ## Lists with further members -/

section Lists

variable {α β : Type} {l s r : List α} {l' : List β} {e : α → β} {old : β → Bool} {x : α}

/-- The members before and after a member, without the further ones, are those before and after it. -/
theorem split_of_filter (h : l'.filter old = (s ++ x :: r).map e) (hs : ∀ y ∈ s, e y ≠ e x) :
    ∃ s' r', l' = s' ++ e x :: r' ∧ e x ∉ s' ∧ s'.filter old = s.map e ∧
      r'.filter old = r.map e := by
  rw [List.map_append, List.map_cons, List.filter_eq_append_iff] at h
  obtain ⟨l₁, l₂, rfl, h₁, h₂⟩ := h
  obtain ⟨m, r', rfl, hm, hOld, hr⟩ := List.filter_eq_cons_iff.mp h₂
  refine ⟨l₁ ++ m, r', by simp, ?_, ?_, hr⟩
  · rw [List.mem_append, not_or]
    refine ⟨fun hMem => ?_, fun hMem => hm _ hMem hOld⟩
    have hFound : e x ∈ s.map e := h₁ ▸ List.mem_filter.mpr ⟨hMem, hOld⟩
    obtain ⟨y, hy, hEq⟩ := List.mem_map.mp hFound
    exact hs y hy hEq
  · rw [List.filter_append, h₁, List.filter_eq_nil_iff.mpr hm, List.append_nil]

/-- A search that passes over further members finds what it finds without them. -/
theorem find?_of_filter {p : α → Bool} {q : β → Bool} (h : l'.filter old = l.map e)
    (hOld : ∀ y ∈ l', q y = true → old y = true) (hpq : ∀ x ∈ l, q (e x) = p x) :
    l'.find? q = (l.find? p).map e := by
  have hFilter : (l'.filter old).find? q = l'.find? q := by
    rw [List.find?_filter]
    refine List.find?_congr fun y hy => ?_
    cases hq : q y with
    | true => simp [hOld y hy hq]
    | false => simp
  rw [← hFilter, h, List.find?_map]
  exact congrArg (Option.map e) (List.find?_congr hpq)

/-- Neighbours among images are images of neighbours. -/
theorem exists_infix_of_map {f : α → β} {a b : β} (h : [a, b] <:+: l.map f) :
    ∃ x y, [x, y] <:+: l ∧ f x = a ∧ f y = b := by
  obtain ⟨s, r, hEq⟩ := h
  obtain ⟨l, r, rfl, hl, -⟩ := List.map_eq_append_iff.mp hEq.symm
  obtain ⟨s, l, rfl, -, hl⟩ := List.map_eq_append_iff.mp hl
  obtain ⟨x, l, rfl, hx, hl⟩ := List.map_eq_cons_iff.mp hl
  obtain ⟨y, l, rfl, hy, hl⟩ := List.map_eq_cons_iff.mp hl
  obtain rfl := List.map_eq_nil_iff.mp hl
  exact ⟨x, y, ⟨s, r, rfl⟩, hx, hy⟩

theorem mapM_congr {f g : α → Option β} (h : ∀ a ∈ l, f a = g a) : l.mapM f = l.mapM g := by
  induction l with
  | nil => rfl
  | cons a l ih =>
    rw [List.forall_mem_cons] at h
    rw [List.mapM_cons, List.mapM_cons, h.1, ih h.2]

end Lists

/-! ## The types that a pattern looks for -/

def Rule.types : Rule → List ValueType
  | .closestAncestor type => [type]
  | .prevSibling type => [type]
  | .nextSibling type => [type]
  | .anchor => []
  | .literal _ => []

def Pattern.types (p : Pattern) : List ValueType :=
  p.anchor.type :: p.arguments.flatMap fun arg => arg.2.types

/-! ## Embeddings -/

/-- The natural scopes of a tree are among those of another one, in their order and with what they
say. Those of the other tree that are `old` come from the first one. -/
structure Embeds (t t' : ScopeTree) (e : ScopeId → ScopeId) (old : ScopeId → Bool) : Prop where
  rooted : t.Rooted
  rooted' : t'.Rooted
  root : e t.root = t'.root
  injective : ∀ x y, t.Natural x → t.Natural y → e x = e y → x = y
  children : ∀ x, t.Natural x → (t'.children (e x)).filter old = (t.children x).map e
  onto : ∀ y, t'.Natural y → old y = true → ∃ x, t.Natural x ∧ e x = y
  node? : ∀ x, t.Natural x → t'.node? (e x) = t.node? x
  placeholder : ∀ x, t.Natural x → t'.isPlaceholder (e x) = t.isPlaceholder x
  bullet : ∀ x, t.Natural x →
    (t'.record? (e x)).map ScopeRecord.bullet = (t.record? x).map ScopeRecord.bullet
  valueType? : ∀ x, t.Natural x → t'.valueType? (e x) = t.valueType? x

/-- No further natural scope has a value of one of the types. -/
def Unread (t' : ScopeTree) (old : ScopeId → Bool) (types : List ValueType) : Prop :=
  ∀ y, t'.Natural y → old y = false → ∀ type ∈ types, t'.valueType? y ≠ some type

namespace Embeds

variable {t t' : ScopeTree} {e : ScopeId → ScopeId} {old : ScopeId → Bool} {x y p a b : ScopeId}
  {types : List ValueType} {type : ValueType} (h : Embeds t t' e old)
include h

theorem mem_children (hp : t.Natural p) (hx : x ∈ t.children p) : e x ∈ t'.children (e p) := by
  have hMem : e x ∈ (t.children p).map e := List.mem_map_of_mem hx
  rw [← h.children p hp] at hMem
  exact (List.mem_filter.mp hMem).1

theorem natural (hx : t.Natural x) : t'.Natural (e x) := by
  induction hx with
  | refl => exact h.root ▸ .refl
  | tail hp hc ih => exact ih.child (h.mem_children hp hc)

theorem parent? (hx : t.Natural x) : t'.parent? (e x) = (t.parent? x).map e := by
  cases hx with
  | refl => rw [h.root, h.rooted.parent?_root, h.rooted'.parent?_root, Option.map_none]
  | tail hp hc =>
    rw [h.rooted.parent?_of_mem_children hc, Option.map_some,
      h.rooted'.parent?_of_mem_children (h.mem_children hp hc)]

theorem above (hx : t.Natural x) : t'.above (e x) = (t.above x).map e := by
  induction hx with
  | refl =>
    rw [h.root, above_of_parent?_none h.rooted.parent?_root,
      above_of_parent?_none h.rooted'.parent?_root, List.map_nil]
  | tail hp hc ih =>
    obtain ⟨r, hr⟩ := h.rooted.live_of_natural hp
    obtain ⟨r', hr'⟩ := h.rooted'.live_of_natural (h.natural hp)
    rw [above_of_parent? h.rooted (h.rooted.parent?_of_mem_children hc) hr,
      above_of_parent? h.rooted' (h.rooted'.parent?_of_mem_children (h.mem_children hp hc)) hr',
      ih, List.map_cons]

/-- A scope among its siblings, in both trees. -/
theorem exists_split (hp : t.Natural p) (hx : x ∈ t.children p) :
    ∃ s r s' r', t.children p = s ++ x :: r ∧ t'.children (e p) = s' ++ e x :: r' ∧
      t.indexInParent? x = some s.length ∧ t'.indexInParent? (e x) = some s'.length ∧
      s'.filter old = s.map e ∧ r'.filter old = r.map e := by
  obtain ⟨s, r, hc, hs, -, hIndex⟩ := h.rooted.exists_split hx
  have hNatural : ∀ y ∈ s, t.Natural y := fun y hy =>
    hp.child (hc ▸ List.mem_append_left _ hy)
  have hFilter := h.children p hp
  rw [hc] at hFilter
  obtain ⟨s', r', hc', hs', hsf, hrf⟩ := split_of_filter hFilter fun y hy hEq =>
    hs (h.injective y x (hNatural y hy) (hp.child hx) hEq ▸ hy)
  have hParent := h.rooted'.parent?_of_mem_children (h.mem_children hp hx)
  exact ⟨s, r, s', r', hc, hc', hIndex, indexInParent?_of_split hParent hc' hs', hsf, hrf⟩

/-- Searching siblings for a type finds the same scope in both trees. -/
theorem find?_typed (hUnread : Unread t' old types) (hType : type ∈ types)
    {l l' : List ScopeId} (hl : ∀ y ∈ l, t.Natural y) (hl' : ∀ y ∈ l', t'.Natural y)
    (hFilter : l'.filter old = l.map e) :
    l'.find? (t'.valueType? · = some type) = (l.find? (t.valueType? · = some type)).map e := by
  refine find?_of_filter hFilter ?_ ?_
  · intro y hy hTyped
    by_contra hNew
    exact hUnread y (hl' y hy) (by simpa using hNew) type hType (by simpa using hTyped)
  · intro y hy
    rw [h.valueType? y (hl y hy)]

/-! ### Making formulas -/

theorem find?_above (hx : t.Natural x) {q : ScopeId → Bool} {q' : ScopeId → Bool}
    (hq : ∀ y, t.Natural y → q' (e y) = q y) :
    (t'.above (e x)).find? q' = ((t.above x).find? q).map e := by
  rw [h.above hx, List.find?_map]
  exact congrArg (Option.map e) (List.find?_congr fun y hy => hq y (h.rooted.natural_of_mem_above hx hy))

theorem findNode? (hUnread : Unread t' old types) (hx : t.Natural x) {rule : Rule}
    (hRule : ∀ type ∈ rule.types, type ∈ types) :
    Pattern.findNode? t' (e x) rule = Pattern.findNode? t x rule := by
  have hNode : ∀ {o : Option ScopeId}, (∀ y ∈ o, t.Natural y) →
      (o.map e).bind t'.node? = o.bind t.node? := by
    intro o ho
    cases o with
    | none => rfl
    | some y => exact h.node? y (ho y rfl)
  have hFound : ∀ {l : List ScopeId} {q : ScopeId → Bool}, (∀ y ∈ l, t.Natural y) →
      ∀ y ∈ l.find? q, t.Natural y := fun hl y hy => hl y (List.mem_of_find?_eq_some hy)
  cases rule with
  | anchor => exact h.node? x hx
  | literal _ => rfl
  | closestAncestor type =>
    rw [Pattern.findNode?, Pattern.findNode?,
      find?_ancestors t' (e x) fun above => t'.valueType? above = some type,
      find?_ancestors t x fun above => t.valueType? above = some type,
      h.find?_above hx (q := fun above => t.valueType? above = some type)]
    · exact hNode (hFound fun y hy => h.rooted.natural_of_mem_above hx hy)
    · intro y hy
      rw [h.valueType? y hy]
  | prevSibling type =>
    rw [Pattern.findNode?, Pattern.findNode?, h.parent? hx]
    cases hp : t.parent? x with
    | none => rfl
    | some p =>
      obtain ⟨hNatural, hMem⟩ := h.rooted.parent_of_natural hx hp
      obtain ⟨s, r, s', r', hc, hc', hIndex, hIndex', hsf, -⟩ := h.exists_split hNatural hMem
      have hs : ∀ y ∈ s.reverse, t.Natural y := fun y hy =>
        hNatural.child (hc ▸ List.mem_append_left _ (List.mem_reverse.mp hy))
      have hs' : ∀ y ∈ s'.reverse, t'.Natural y := fun y hy =>
        (h.natural hNatural).child (hc' ▸ List.mem_append_left _ (List.mem_reverse.mp hy))
      have hFind := h.find?_typed hUnread (hRule type List.mem_cons_self) hs hs'
        (by rw [List.filter_reverse, hsf, List.map_reverse])
      simp only [Option.map_some, bind, Option.bind_some, hIndex, hIndex', hc, hc',
        List.take_left', hFind]
      exact hNode (hFound hs)
  | nextSibling type =>
    rw [Pattern.findNode?, Pattern.findNode?, h.parent? hx]
    cases hp : t.parent? x with
    | none => rfl
    | some p =>
      obtain ⟨hNatural, hMem⟩ := h.rooted.parent_of_natural hx hp
      obtain ⟨s, r, s', r', hc, hc', hIndex, hIndex', -, hrf⟩ := h.exists_split hNatural hMem
      have hr : ∀ y ∈ r, t.Natural y := fun y hy =>
        hNatural.child (hc ▸ List.mem_append_right _ (List.mem_cons_of_mem _ hy))
      have hr' : ∀ y ∈ r', t'.Natural y := fun y hy =>
        (h.natural hNatural).child (hc' ▸ List.mem_append_right _ (List.mem_cons_of_mem _ hy))
      have hFind := h.find?_typed hUnread (hRule type List.mem_cons_self) hr hr' hrf
      simp only [Option.map_some, bind, Option.bind_some, hIndex, hIndex', hc, hc',
        drop_succ_length, hFind]
      exact hNode (hFound hr)

theorem argument? (hUnread : Unread t' old types) (hx : t.Natural x) {rule : Rule}
    (hRule : ∀ type ∈ rule.types, type ∈ types) :
    Pattern.argument? t' (e x) rule = Pattern.argument? t x rule := by
  cases rule with
  | literal e => rfl
  | _ => exact congrArg (Option.map _) (h.findNode? hUnread hx hRule)

/-- The formula that belongs to a scope is the same in both trees. -/
theorem synthesize {p : Pattern} (hUnread : Unread t' old p.types) (hx : t.Natural x) :
    p.synthesize t' (e x) = p.synthesize t x := by
  have hArguments : p.arguments.mapM (fun arg => (Pattern.argument? t' (e x) arg.2).map
        fun value => (⟨arg.1, value, .none⟩ : Argument Expr)) =
      p.arguments.mapM (fun arg => (Pattern.argument? t x arg.2).map
        fun value => (⟨arg.1, value, .none⟩ : Argument Expr)) := by
    refine mapM_congr fun arg hArg => ?_
    rw [h.argument? hUnread hx]
    intro type hType
    exact List.mem_cons_of_mem _ (List.mem_flatMap.mpr ⟨arg, hArg, hType⟩)
  rw [Pattern.synthesize, Pattern.synthesize]
  exact congrArg (Option.bind · _) hArguments

/-! ### Anchors -/

theorem old_of_mem_children (hp : t.Natural p) (hx : x ∈ t.children p) : old (e x) = true := by
  have hMem : e x ∈ (t.children p).map e := List.mem_map_of_mem hx
  rw [← h.children p hp] at hMem
  exact (List.mem_filter.mp hMem).2

/-- Neighbours in the larger tree are neighbours in the smaller one. -/
theorem infix_of_infix (hp : t.Natural p) (hx : x ∈ t.children p) (hy : y ∈ t.children p)
    (hInfix : [e x, e y] <:+: t'.children (e p)) : [x, y] <:+: t.children p := by
  have hFilter := hInfix.filter old
  rw [h.children p hp, List.filter_cons_of_pos (h.old_of_mem_children hp hx),
    List.filter_cons_of_pos (h.old_of_mem_children hp hy), List.filter_nil] at hFilter
  obtain ⟨x', y', hFound, hx', hy'⟩ := exists_infix_of_map hFilter
  have hMem : ∀ z ∈ [x', y'], t.Natural z := fun z hz => hp.child (hFound.subset hz)
  rw [← h.injective _ _ (hMem x' (by simp)) (hp.child hx) hx',
    ← h.injective _ _ (hMem y' (by simp)) (hp.child hy) hy']
  exact hFound

theorem mem_children_of_mem (hp : t.Natural p) (hx : t.Natural x)
    (hMem : e x ∈ t'.children (e p)) : x ∈ t.children p := by
  have hParent := h.parent? hx
  rw [h.rooted'.parent?_of_mem_children hMem] at hParent
  obtain ⟨q, hq, hEq⟩ := Option.map_eq_some_iff.mp hParent.symm
  obtain ⟨hNatural, hMem⟩ := h.rooted.parent_of_natural hx hq
  rwa [h.injective q p hNatural hp hEq] at hMem

/-- A scope that is placed beside another one in the larger tree is so in the smaller one. -/
theorem placed_of_placed (hx : t.Natural x) (hy : t.Natural y) {placement : Placement}
    (hPlaced : t'.Placed (e y) (e x) placement) : t.Placed y x placement := by
  have hSibling : ∀ {l p' a b}, l = [e a, e b] → l <:+: t'.children p' → t.Natural a →
      t.Natural b → ∃ p, [a, b] <:+: t.children p := by
    rintro l p' a b rfl hInfix ha hb
    have hParent := h.parent? ha
    rw [h.rooted'.parent?_of_mem_children (hInfix.subset (by simp) : e a ∈ _)] at hParent
    obtain ⟨p, hp, rfl⟩ := Option.map_eq_some_iff.mp hParent.symm
    obtain ⟨hNatural, hMem⟩ := h.rooted.parent_of_natural ha hp
    exact ⟨p, h.infix_of_infix hNatural hMem
      (h.mem_children_of_mem hNatural hb (hInfix.subset (by simp))) hInfix⟩
  cases placement with
  | child => exact h.mem_children_of_mem hy hx hPlaced
  | below =>
    obtain ⟨p', hInfix⟩ := hPlaced
    exact hSibling rfl hInfix hy hx
  | above =>
    obtain ⟨p', hInfix⟩ := hPlaced
    exact hSibling rfl hInfix hx hy

end Embeds

/-- Two trees find the same natural scope for a node, or none. -/
structure FoundAlike (t t' : ScopeTree) (e : ScopeId → ScopeId) (n : NodeId) : Prop where
  natural : ∀ x, t.scopeForNode? n = some x → t.Natural x
  same : t'.scopeForNode? n = (t.scopeForNode? n).map e

namespace Embeds

variable {t t' : ScopeTree} {e : ScopeId → ScopeId} {old : ScopeId → Bool} {x y z : ScopeId}
  {types : List ValueType} {type : ValueType} (h : Embeds t t' e old)
  {parameters : List ParameterSpec} {arg : Argument Expr} {index : Nat} {anchor : Anchor}
include h

/-- An anchor in the larger tree is one in the smaller tree. -/
theorem anchor?_of_some (hFound : ∀ n ∈ arg.target?, FoundAlike t t' e n) (hx : t.Natural x)
    (hAnchor : Pattern.anchor? t' parameters (e x) arg index = some (z, anchor)) :
    ∃ y, Pattern.anchor? t parameters x arg index = some (y, anchor) ∧ z = e y := by
  obtain ⟨⟨n, hn, hScope⟩, hType, hSpec, hPlacement⟩ := anchor?_eq_some_iff.mp hAnchor
  obtain ⟨hNatural, hSame⟩ := hFound n hn
  rw [hSame] at hScope
  obtain ⟨y, hy, rfl⟩ := Option.map_eq_some_iff.mp hScope
  have hyn := hNatural y hy
  rw [h.valueType? y hyn] at hType
  refine ⟨y, anchor?_eq_some_iff.mpr ⟨⟨n, hn, hy⟩, hType, hSpec, ?_⟩, rfl⟩
  rw [placement?_eq_some_iff h.rooted (h.rooted.isTransclusion_of_natural hx)]
  rw [placement?_eq_some_iff h.rooted' (h.rooted'.isTransclusion_of_natural (h.natural hx))]
    at hPlacement
  exact h.placed_of_placed hx hyn hPlacement

/-- An anchor is one in the larger tree if the formula still stands beside it. -/
theorem anchor?_eq_some (hFound : ∀ n ∈ arg.target?, FoundAlike t t' e n) (hx : t.Natural x)
    (hAnchor : Pattern.anchor? t parameters x arg index = some (y, anchor))
    (hPlaced : t'.Placed (e y) (e x) anchor.placement) :
    Pattern.anchor? t' parameters (e x) arg index = some (e y, anchor) := by
  obtain ⟨⟨n, hn, hScope⟩, hType, hSpec, -⟩ := anchor?_eq_some_iff.mp hAnchor
  obtain ⟨hNatural, hSame⟩ := hFound n hn
  refine anchor?_eq_some_iff.mpr ⟨⟨n, hn, by rw [hSame, hScope]; rfl⟩, ?_, hSpec, ?_⟩
  · rw [h.valueType? y (hNatural y hScope), hType]
  · rwa [placement?_eq_some_iff h.rooted' (h.rooted'.isTransclusion_of_natural (h.natural hx))]

theorem findAnchor? {args : List (Argument Expr)}
    (hFound : ∀ arg ∈ args, ∀ n ∈ arg.target?, FoundAlike t t' e n) (hx : t.Natural x)
    {place : Nat} (hAnchor : Pattern.findAnchor? t parameters x args = some (place, y, anchor))
    (hPlaced : t'.Placed (e y) (e x) anchor.placement) :
    Pattern.findAnchor? t' parameters (e x) args = some (place, e y, anchor) := by
  have hArgs : ∀ a ∈ args.zipIdx, ∀ n ∈ a.1.target?, FoundAlike t t' e n := fun a ha =>
    hFound a.1 (List.fst_mem_of_mem_zipIdx ha)
  obtain ⟨before, ⟨arg, i⟩, after, hSplit, hHere, hBefore⟩ := List.findSome?_eq_some_iff.mp hAnchor
  rw [hSplit] at hArgs
  refine List.findSome?_eq_some_iff.mpr ⟨before, ⟨arg, i⟩, after, hSplit, ?_, ?_⟩
  · obtain ⟨⟨y', anchor'⟩, hSome, hEq⟩ := Option.map_eq_some_iff.mp hHere
    simp only [Prod.mk.injEq] at hEq
    obtain ⟨rfl, rfl, rfl⟩ := hEq
    simp only [h.anchor?_eq_some (hArgs (arg, i) (by simp)) hx hSome hPlaced, Option.map_some]
  · rintro ⟨arg', k⟩ hb
    have hNone := hBefore (arg', k) hb
    rw [Option.map_eq_none_iff] at hNone ⊢
    cases hSome : Pattern.anchor? t' parameters (e x) arg' k with
    | none => rfl
    | some found =>
      obtain ⟨z, anchor'⟩ := found
      obtain ⟨y', hy', -⟩ := h.anchor?_of_some (hArgs (arg', k) (by simp [hb])) hx hSome
      rw [hNone] at hy'
      cases hy'

/-! ### Rules -/

/-- Two siblings, and what stands between them, in both trees. -/
theorem exists_between {p : ScopeId} {s m q : List ScopeId} (hp : t.Natural p)
    (hc : t.children p = s ++ x :: (m ++ y :: q)) :
    ∃ s' m' q', t'.children (e p) = s' ++ e x :: (m' ++ e y :: q') ∧ m'.filter old = m.map e := by
  have hNodup := h.rooted.nodup_children p
  have hNatural : ∀ z ∈ t.children p, t.Natural z := fun z hz => hp.child hz
  have hFilter := h.children p hp
  rw [hc] at hNodup hNatural hFilter
  have hApart : ∀ {l r : List ScopeId} {z}, (l ++ z :: r).Nodup →
      (∀ w ∈ l ++ z :: r, t.Natural w) → ∀ w ∈ l, e w ≠ e z := by
    intro l r z hNodup hNatural w hw hEq
    have hSame := h.injective w z (hNatural w (by simp [hw])) (hNatural z (by simp)) hEq
    exact (List.nodup_append.mp hNodup).2.2 w hw z List.mem_cons_self hSame
  obtain ⟨s', r', hc', -, -, hr⟩ := split_of_filter hFilter (hApart hNodup hNatural)
  have hRest : (m ++ y :: q).Nodup := (List.nodup_cons.mp (List.nodup_append.mp hNodup).2.1).2
  obtain ⟨m', q', rfl, -, hm, -⟩ := split_of_filter hr (hApart hRest fun w hw => hNatural w
    (List.mem_append_right _ (List.mem_cons_of_mem _ hw)))
  exact ⟨s', m', q', hc', hm⟩

/-- Whether a scope with a value of a type is among others, in both trees. -/
theorem any_typed (hUnread : Unread t' old types) {m m' : List ScopeId}
    (hm : ∀ y ∈ m, t.Natural y) (hm' : ∀ y ∈ m', t'.Natural y) (hFilter : m'.filter old = m.map e)
    (hType : m.any (t.valueType? · = some type) = false → type ∈ types) :
    m'.any (t'.valueType? · = some type) = m.any (t.valueType? · = some type) := by
  cases hAny : m.any (t.valueType? · = some type) with
  | false =>
    have hFind := h.find?_typed hUnread (hType hAny) hm hm' hFilter
    rw [← List.isSome_find?] at hAny ⊢
    rw [hFind, Option.isSome_map, hAny]
  | true =>
    obtain ⟨y, hy, hTyped⟩ := List.any_eq_true.mp hAny
    have hMem : e y ∈ m'.filter old := hFilter ▸ List.mem_map_of_mem hy
    refine List.any_eq_true.mpr ⟨e y, (List.mem_filter.mp hMem).1, ?_⟩
    rwa [h.valueType? y (hm y hy)]

theorem siblingRule? (hUnread : Unread t' old types) (hx : t.Natural x) (hy : t.Natural y)
    (hRule : ∀ rule ∈ Pattern.siblingRule? t type x y, ∀ type ∈ rule.types, type ∈ types) :
    Pattern.siblingRule? t' type (e x) (e y) = Pattern.siblingRule? t type x y := by
  by_cases hxy : x = y
  · rw [hxy, siblingRule?_self, siblingRule?_self]
  by_cases hParent : t.parent? x = t.parent? y
  · cases hp : t.parent? x with
    | none =>
      have hRoot := (h.rooted.eq_root_of_natural hx hp).trans
        (h.rooted.eq_root_of_natural hy (hParent ▸ hp)).symm
      exact absurd hRoot hxy
    | some p =>
      obtain ⟨hpn, hxp⟩ := h.rooted.parent_of_natural hx hp
      obtain ⟨-, hyp⟩ := h.rooted.parent_of_natural hy (hParent ▸ hp)
      obtain ⟨s, m, q, hc | hc⟩ := split_two hxp hyp hxy
      all_goals
        obtain ⟨s', m', q', hc', hm⟩ := h.exists_between hpn hc
        have hNatural : ∀ z ∈ m, t.Natural z := fun z hz => hpn.child (hc ▸ by simp [hz])
        have hNatural' : ∀ z ∈ m', t'.Natural z := fun z hz =>
          (h.natural hpn).child (hc' ▸ by simp [hz])
      · rw [siblingRule?_prev h.rooted hc] at hRule ⊢
        rw [siblingRule?_prev h.rooted' hc', h.any_typed hUnread hNatural hNatural' hm]
        intro hNone
        rw [hNone] at hRule
        exact hRule _ rfl type List.mem_cons_self
      · rw [siblingRule?_next h.rooted hc] at hRule ⊢
        rw [siblingRule?_next h.rooted' hc', h.any_typed hUnread hNatural hNatural' hm]
        intro hNone
        rw [hNone] at hRule
        exact hRule _ rfl type List.mem_cons_self
  · rw [siblingRule?_of_ne hParent, siblingRule?_of_ne]
    rw [h.parent? hx, h.parent? hy]
    intro hEq
    refine hParent ?_
    cases hp : t.parent? x with
    | none =>
      rw [hp, Option.map_none] at hEq
      exact (Option.map_eq_none_iff.mp hEq.symm).symm
    | some p =>
      rw [hp, Option.map_some] at hEq
      obtain ⟨q, hq, hpq⟩ := Option.map_eq_some_iff.mp hEq.symm
      rw [hq, h.injective q p (h.rooted.parent_of_natural hy hq).1
        (h.rooted.parent_of_natural hx hp).1 hpq]

theorem isClosestAncestor (hx : t.Natural x) (hy : t.Natural y) :
    Pattern.isClosestAncestor t' type (e x) (e y) = Pattern.isClosestAncestor t type x y := by
  have hSame : ∀ z, t.Natural z → (e z = e x ↔ z = x) := fun z hz =>
    ⟨h.injective z x hz hx, congrArg e⟩
  rw [isClosestAncestor_eq, isClosestAncestor_eq,
    h.find?_above hy (q := fun z => z = x || t.valueType? z = some type)]
  · cases hFind : (t.above y).find? fun z => z = x || t.valueType? z = some type with
    | none => rfl
    | some z =>
      have hz := h.rooted.natural_of_mem_above hy (List.mem_of_find?_eq_some hFind)
      rw [Option.map_some, Bool.eq_iff_iff, beq_iff_eq, beq_iff_eq, Option.some.injEq,
        Option.some.injEq, hSame z hz]
  · intro z hz
    rw [h.valueType? z hz]
    simp only [hSame z hz]

theorem relation? (hUnread : Unread t' old types) (hx : t.Natural x) (hy : t.Natural y)
    (hRule : ∀ rule ∈ FormulaOutline.relation? t type x y, ∀ type ∈ rule.types, type ∈ types) :
    FormulaOutline.relation? t' type (e x) (e y) = FormulaOutline.relation? t type x y := by
  rw [FormulaOutline.relation?] at hRule
  rw [FormulaOutline.relation?, FormulaOutline.relation?, h.isClosestAncestor hx hy]
  split
  · rfl
  · rename_i hNot
    rw [if_neg hNot] at hRule
    exact h.siblingRule? hUnread hx hy hRule

/-- The rule that finds an argument from its anchor is the same in both trees. -/
theorem ruleFor (hUnread : Unread t' old types) (hFound : ∀ n ∈ arg.target?, FoundAlike t t' e n)
    (hx : t.Natural x) (hRule : ∀ type ∈ (Pattern.ruleFor t x arg).types, type ∈ types) :
    Pattern.ruleFor t' (e x) arg = Pattern.ruleFor t x arg := by
  rw [ruleFor_eq] at hRule
  rw [ruleFor_eq, ruleFor_eq]
  refine congrArg (Option.getD · _) ?_
  rw [argumentRule?] at hRule
  rw [argumentRule?, argumentRule?]
  cases hTarget : arg.target? with
  | none => rw [Option.bind_none, Option.bind_none, Option.bind_none, Option.bind_none]
  | some n =>
    obtain ⟨hNatural, hSame⟩ := hFound n hTarget
    rw [hTarget, Option.bind_some] at hRule
    rw [Option.bind_some, Option.bind_some, hSame]
    cases hScope : t.scopeForNode? n with
    | none => rw [Option.map_none, Option.bind_none, Option.bind_none]
    | some y =>
      have hy := hNatural y hScope
      rw [hScope, Option.bind_some] at hRule
      rw [Option.map_some, Option.bind_some, Option.bind_some, h.valueType? y hy]
      cases hType : t.valueType? y with
      | none => rw [Option.bind_none, Option.bind_none]
      | some type =>
        rw [hType, Option.bind_some] at hRule
        rw [Option.bind_some, Option.bind_some]
        refine h.relation? hUnread hy hx fun rule hSome => ?_
        rwa [Option.mem_def.mp hSome, Option.getD_some] at hRule

/-- The pattern of an example is that of the same example in the larger tree, if the formula still
stands beside its anchor. -/
theorem learned {functions : Registry} {site beside : ScopeId} {p : Pattern}
    {args : List (Argument Expr)} {place : Nat} (hUnread : Unread t' old p.types)
    (hFound : ∀ arg ∈ args, ∀ n ∈ arg.target?, FoundAlike t t' e n) (hSite : t.Natural site)
    (hLearned : Learned t functions site p args place beside)
    (hPlaced : t'.Placed (e beside) (e site) p.anchor.placement) :
    Learned t' functions (e site) p args place (e beside) := by
  obtain ⟨arg, hArg, hAnchor⟩ := hLearned.exists_argument
  obtain ⟨⟨n, hn, hScope⟩, -⟩ := anchor?_eq_some_iff.mp hAnchor
  have hBeside := (hFound arg (List.mem_of_getElem? hArg) n hn).natural beside hScope
  refine ⟨?_, h.findAnchor? hFound hSite hLearned.anchor hPlaced, ?_⟩
  · obtain ⟨s, hCall⟩ := hLearned.call
    have hBullet := congrArg (·.bind Bullet.singleCall?) (h.bullet site hSite)
    simp only [Option.bind_map] at hBullet
    exact ⟨s, hBullet.trans hCall⟩
  · rw [hLearned.arguments]
    refine List.map_congr_left ?_
    rintro ⟨arg, i⟩ hMem
    simp only [Prod.mk.injEq, true_and]
    split
    · rfl
    · rename_i hi
      have hRule : ∀ type ∈ (Pattern.ruleFor t beside arg).types, type ∈ p.types := by
        intro type hType
        refine List.mem_cons_of_mem _ (List.mem_flatMap.mpr
          ⟨(arg.name, Pattern.ruleFor t beside arg), ?_, hType⟩)
        rw [hLearned.arguments]
        exact List.mem_map.mpr ⟨(arg, i), hMem, by simp only [if_neg hi]⟩
      exact (h.ruleFor hUnread (hFound arg (List.fst_mem_of_mem_zipIdx hMem)) hBeside hRule).symm

end Embeds

end FormulaOutline
