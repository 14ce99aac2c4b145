import FormulaOutline.Proofs.Pattern.Places
import FormulaOutline.Proofs.Session.Operations

/-!
# What a name means

The search for a name goes up from the scope that asks, through the scope that refers where a scope is
referred to, and ends at the nearest scope with a child of that key that is not the asker.

* `Rooted.getElem?_ancestors`: the scopes above a scope, each as many steps above as it is listed.
* `Offers`: what a single scope has to offer for a name.
* `Rooted.lookup?_eq_some_iff`, `Rooted.lookup?_eq_none_iff`: the search gives what the nearest scope
  above offers.
* `reachable_lookup`: so it does in every tree that a session comes to.
-/

namespace FormulaOutline

namespace ScopeTree

variable {t : ScopeTree} {x y p a : ScopeId} {r : ScopeRecord} {k : Nat} {name : String}

/-! ## Scopes above a scope -/

theorem Rooted.parent?_eq_some_iff (h : t.Rooted) : t.parent? x = some p ↔ t.arena.Owns p x := by
  refine ⟨fun hp => ?_, h.parent?_of_owns⟩
  obtain ⟨r, hr, hp⟩ := Option.bind_eq_some_iff.mp hp
  exact h.owns_of_parent hr hp

/-- The way down to a scope leads through its owner. -/
theorem Rooted.descends_succ_iff_of_owns (h : t.Rooted) (hOwns : t.arena.Owns p x) :
    t.Descends a (k + 1) x ↔ t.Descends a k p := by
  constructor
  · intro hDescends
    cases hDescends with
    | step hDescends hOwns' => exact h.owner_unique hOwns hOwns' ▸ hDescends
  · exact fun hDescends => hDescends.step hOwns

/-- A scope has an owner, with which the scopes above it begin, or there are no scopes above it. -/
theorem Rooted.ancestors_cases (h : t.Rooted) (x : ScopeId) :
    (t.ancestors x = [] ∧ ∀ a k, ¬ t.Descends a (k + 1) x) ∨
      ∃ p r, t.arena.Owns p x ∧ t.record? p = some r ∧ t.ancestors x = (p, r) :: t.ancestors p := by
  cases hp : t.parent? x with
  | none =>
    refine Or.inl ⟨by rw [ancestors, hp], fun a k hDescends => ?_⟩
    cases hDescends with
    | step _ hOwns =>
      rw [h.parent?_of_owns hOwns] at hp
      cases hp
  | some p =>
    have hOwns := h.parent?_eq_some_iff.mp hp
    obtain ⟨r, hr, -⟩ := id hOwns
    refine Or.inr ⟨p, r, hOwns, hr, ?_⟩
    rw [ancestors, hp]
    exact h.upward_eq hr

/-- The scopes above a scope, each as many steps above as it is listed. -/
theorem Rooted.getElem?_ancestors (h : t.Rooted) :
    (t.ancestors x)[k]? = some (a, r) ↔ t.Descends a (k + 1) x ∧ t.record? a = some r := by
  induction k generalizing x with
  | zero =>
    rcases h.ancestors_cases x with ⟨hNil, hNot⟩ | ⟨p, rp, hOwns, hrp, hCons⟩
    · simp [hNil, hNot a 0]
    · rw [hCons, List.getElem?_cons_zero, Option.some.injEq, Prod.mk.injEq,
        h.descends_succ_iff_of_owns hOwns]
      constructor
      · rintro ⟨rfl, rfl⟩
        exact ⟨.here, hrp⟩
      · rintro ⟨hHere, hr⟩
        cases hHere
        exact ⟨rfl, Option.some.inj (hrp.symm.trans hr)⟩
  | succ k ih =>
    rcases h.ancestors_cases x with ⟨hNil, hNot⟩ | ⟨p, rp, hOwns, -, hCons⟩
    · simp [hNil, hNot a (k + 1)]
    · rw [hCons, List.getElem?_cons_succ, ih, h.descends_succ_iff_of_owns hOwns]

theorem Rooted.exists_getElem?_ancestors (h : t.Rooted) (hAbove : t.Descends a (k + 1) x) :
    ∃ r, (t.ancestors x)[k]? = some (a, r) := by
  obtain ⟨c, ⟨r, hr, -⟩, -⟩ := descends_succ_iff.mp hAbove
  exact ⟨r, h.getElem?_ancestors.mpr ⟨hAbove, hr⟩⟩

/-! ## The search -/

/-- A scope offers its first child with a key, unless that child is the one that asks. -/
def Offers (t : ScopeTree) (asker : ScopeId) (name : String) (a y : ScopeId) : Prop :=
  (t.children a).find? (fun c => t.key? c == some name) = some y ∧ y ≠ asker

theorem Offers.key? (h : t.Offers x name a y) : t.key? y = some name := by
  simpa using List.find?_some h.1

theorem Offers.mem_children (h : t.Offers x name a y) : y ∈ t.children a :=
  List.mem_of_find?_eq_some h.1

/-- What a single scope contributes to the search. -/
theorem Rooted.property?_filter_eq_some_iff (h : t.Rooted) (hr : t.record? a = some r) :
    (t.property? a name).filter (· != x) = some y ↔ t.Offers x name a y := by
  rw [h.property?_eq hr, Option.filter_eq_some_iff, Offers, children_of_record? hr, bne_iff_ne]

theorem Rooted.property?_filter_eq_none_iff (h : t.Rooted) (hr : t.record? a = some r) :
    (t.property? a name).filter (· != x) = none ↔ ∀ y, ¬ t.Offers x name a y := by
  rw [Option.eq_none_iff_forall_ne_some]
  exact forall_congr' fun y => not_congr (h.property?_filter_eq_some_iff hr)

/-- A name means what the nearest scope above offers for it. -/
theorem Rooted.lookup?_eq_some_iff (h : t.Rooted) :
    t.lookup? x name = some y ↔ ∃ k a, t.Descends a (k + 1) x ∧ t.Offers x name a y ∧
      ∀ j < k, ∀ b, t.Descends b (j + 1) x → ∀ z, ¬ t.Offers x name b z := by
  rw [lookup?, List.findSome?_eq_some_iff]
  constructor
  · rintro ⟨near, ⟨a, r⟩, far, hSplit, hFound, hNone⟩
    have hAt : (t.ancestors x)[near.length]? = some (a, r) := by simp [hSplit]
    obtain ⟨hAbove, hr⟩ := h.getElem?_ancestors.mp hAt
    refine ⟨near.length, a, hAbove, (h.property?_filter_eq_some_iff hr).mp hFound, ?_⟩
    intro j hj b hb
    obtain ⟨s, hs⟩ := h.exists_getElem?_ancestors hb
    have hNear : (b, s) ∈ near := by
      rw [hSplit, List.getElem?_append_left hj] at hs
      exact List.mem_of_getElem? hs
    exact (h.property?_filter_eq_none_iff (h.getElem?_ancestors.mp hs).2).mp (hNone (b, s) hNear)
  · rintro ⟨k, a, hAbove, hOffers, hNone⟩
    obtain ⟨r, hAt⟩ := h.exists_getElem?_ancestors hAbove
    obtain ⟨hk, hGet⟩ := List.getElem?_eq_some_iff.mp hAt
    refine ⟨(t.ancestors x).take k, (a, r), (t.ancestors x).drop (k + 1), ?_, ?_, ?_⟩
    · rw [← hGet, List.cons_getElem_drop_succ, List.take_append_drop]
    · exact (h.property?_filter_eq_some_iff (h.getElem?_ancestors.mp hAt).2).mpr hOffers
    · rintro ⟨b, s⟩ hMem
      obtain ⟨j, hj, hGet⟩ := List.mem_take_iff_getElem.mp hMem
      have hs : (t.ancestors x)[j]? = some (b, s) := hGet ▸ List.getElem?_eq_getElem _
      obtain ⟨hb, hrb⟩ := h.getElem?_ancestors.mp hs
      exact (h.property?_filter_eq_none_iff hrb).mpr (hNone j (by omega) b hb)

theorem Rooted.lookup?_eq_none_iff (h : t.Rooted) :
    t.lookup? x name = none ↔
      ∀ k a, t.Descends a (k + 1) x → ∀ y, ¬ t.Offers x name a y := by
  rw [lookup?, List.findSome?_eq_none_iff]
  constructor
  · intro hNone k a hAbove
    obtain ⟨r, hAt⟩ := h.exists_getElem?_ancestors hAbove
    exact (h.property?_filter_eq_none_iff (h.getElem?_ancestors.mp hAt).2).mp
      (hNone _ (List.mem_of_getElem? hAt))
  · rintro hNone ⟨a, r⟩ hMem
    obtain ⟨k, hAt⟩ := List.mem_iff_getElem?.mp hMem
    obtain ⟨hAbove, hr⟩ := h.getElem?_ancestors.mp hAt
    exact (h.property?_filter_eq_none_iff hr).mpr (hNone k a hAbove)

/-- What is found has the key that is asked for, below a scope above the asker, and is not the asker. -/
theorem Rooted.of_lookup?_eq_some (h : t.Rooted) (hFound : t.lookup? x name = some y) :
    y ≠ x ∧ t.key? y = some name ∧
      ∃ k a, t.Descends a (k + 1) x ∧ a ≠ x ∧ t.parent? y = some a := by
  obtain ⟨k, a, hAbove, hOffers, -⟩ := h.lookup?_eq_some_iff.mp hFound
  refine ⟨hOffers.2, hOffers.key?, k, a, hAbove, ?_, h.parent?_of_mem_children hOffers.mem_children⟩
  rintro rfl
  obtain ⟨c, ⟨r, hr, -⟩, -⟩ := descends_succ_iff.mp hAbove
  have := h.acyclic ⟨r, hr⟩ hAbove
  omega

end ScopeTree

/-! ## Sessions -/

namespace Session

open ScopeTree

/-- Whatever has been built anew, a name means what the nearest scope above the asker offers for it. -/
theorem reachable_lookup (d : Document) (functions : Registry) (config : EngineConfig)
    (providers : Directory) {s : Session}
    (h : Reachable (ofTree (.build d) functions config providers) s) (x : ScopeId) (name : String) :
    (∀ y, s.tree.lookup? x name = some y ↔
      ∃ k a, s.tree.Descends a (k + 1) x ∧ s.tree.Offers x name a y ∧
        ∀ j < k, ∀ b, s.tree.Descends b (j + 1) x → ∀ z, ¬ s.tree.Offers x name b z) ∧
      (s.tree.lookup? x name = none ↔
        ∀ k a, s.tree.Descends a (k + 1) x → ∀ y, ¬ s.tree.Offers x name a y) ∧
      ∀ y, s.tree.lookup? x name = some y → y ≠ x ∧ s.tree.key? y = some name ∧
        ∃ k a, s.tree.Descends a (k + 1) x ∧ a ≠ x ∧ s.tree.parent? y = some a := by
  have hRooted := h.rooted (rooted_build d)
  exact ⟨fun _ => hRooted.lookup?_eq_some_iff, hRooted.lookup?_eq_none_iff,
    fun _ => hRooted.of_lookup?_eq_some⟩

/-- Two bullets with the same key, the second of which refers to a bullet that asks for that key. -/
def rates : Document :=
  ⟨"root", [⟨"root", "", ["a", "box", "c"]⟩, ⟨"a", "rate: 2", []⟩, ⟨"box", "x", ["b"]⟩,
    ⟨"b", "rate: \x7b#[c]\x7d", []⟩, ⟨"c", "\x7brate\x7d", []⟩], 0⟩

/-- The box has been made anew. The reference in it finds the second bullet, its place at the end of
the outline finds the first one, and the second one does not find itself. -/
theorem reachable_lookup_rates :
    ∃ s, s = (ofTree (.build rates) [] .default .empty).apply (.rebuild ⟨2, 0⟩ rates) ∧
      s.tree.node? ⟨2, 1⟩ = some "c" ∧ s.tree.node? ⟨3, 1⟩ = some "b" ∧
      s.tree.lookup? ⟨2, 1⟩ "rate" = some ⟨3, 1⟩ ∧ s.tree.lookup? ⟨5, 0⟩ "rate" = some ⟨1, 0⟩ ∧
      s.tree.lookup? ⟨3, 1⟩ "rate" = some ⟨1, 0⟩ ∧
      ∃ k a, s.tree.Descends a (k + 1) ⟨3, 1⟩ ∧ s.tree.Offers ⟨3, 1⟩ "rate" a ⟨1, 0⟩ ∧
        ∀ j < k, ∀ b, s.tree.Descends b (j + 1) ⟨3, 1⟩ → ∀ z, ¬ s.tree.Offers ⟨3, 1⟩ "rate" b z := by
  refine ⟨_, rfl, ?_⟩
  generalize hs : (ofTree (.build rates) [] .default .empty).apply (.rebuild ⟨2, 0⟩ rates) = s
  have hNames : s.tree.node? ⟨2, 1⟩ = some "c" ∧ s.tree.node? ⟨3, 1⟩ = some "b" ∧
      s.tree.lookup? ⟨2, 1⟩ "rate" = some ⟨3, 1⟩ ∧ s.tree.lookup? ⟨5, 0⟩ "rate" = some ⟨1, 0⟩ ∧
      s.tree.lookup? ⟨3, 1⟩ "rate" = some ⟨1, 0⟩ := by
    rw [← hs]
    decide +kernel
  obtain ⟨hReference, hReferring, hInner, hOuter, hSelf⟩ := hNames
  have hReachable : Reachable (ofTree (.build rates) [] .default .empty) s := by
    rw [← hs]
    exact .apply _ .refl
  have hLookup := reachable_lookup rates [] .default .empty hReachable ⟨3, 1⟩ "rate"
  exact ⟨hReference, hReferring, hInner, hOuter, hSelf, (hLookup.1 ⟨1, 0⟩).mp hSelf⟩

end Session

end FormulaOutline
