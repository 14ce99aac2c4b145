import FormulaOutline.Proofs.Suggestion.Nearest

/-!
# Pairs of parameters

Where both arguments of a function have the same type, a pair of parameters is offered in the order of
the outline. The order compares the places on the ways from the root, and a scope that is referred to
has no place of its own. So two references in one bullet come in neither order.

* `Parameter.pathBefore_trans`, `Parameter.pathBefore_total`: ways are ordered like words.
* `SamePlace`: two scopes to which the same way leads, and `Rooted.placePath_eq_iff` that these are
  the scopes with equal ways.
* `SamePlace.eq_of_natural`: it takes a reference for two scopes to stand in the same place.
* `Suggestion.pairwise_eq_map`: what is offered are the pairs in the order of the outline.
* `reachable_pairs`: a pair is offered in one of its orders, unless the two stand in the same place.
-/

namespace FormulaOutline

/-! ## The order of ways -/

namespace Parameter

theorem placeBefore_irrefl (a : Option Nat) : placeBefore a a = false := by
  cases a <;> simp [placeBefore]

theorem placeBefore_trans {a b c : Option Nat} (hab : placeBefore a b = true)
    (hbc : placeBefore b c = true) : placeBefore a c = true := by
  cases a <;> cases b <;> cases c <;> simp_all [placeBefore]
  omega

theorem placeBefore_total (a b : Option Nat) :
    placeBefore a b = true ∨ a = b ∨ placeBefore b a = true := by
  cases a <;> cases b <;> simp [placeBefore]
  omega

theorem pathBefore_cons_iff {a b : Option Nat} {as bs : List (Option Nat)} :
    pathBefore (a :: as) (b :: bs) = true ↔
      placeBefore a b = true ∨ a = b ∧ pathBefore as bs = true := by
  rw [pathBefore, Bool.or_eq_true, Bool.and_eq_true, beq_iff_eq]

theorem pathBefore_irrefl (as : List (Option Nat)) : pathBefore as as = false := by
  induction as with
  | nil => rfl
  | cons a as ih => simp [pathBefore, placeBefore_irrefl, ih]

theorem pathBefore_trans {as bs cs : List (Option Nat)} (hab : pathBefore as bs = true)
    (hbc : pathBefore bs cs = true) : pathBefore as cs = true := by
  induction as generalizing bs cs with
  | nil =>
    cases cs with
    | nil => cases bs <;> cases hbc
    | cons c cs => rfl
  | cons a as ih =>
    cases bs with
    | nil => cases hab
    | cons b bs =>
      cases cs with
      | nil => cases hbc
      | cons c cs =>
        rw [pathBefore_cons_iff] at hab hbc ⊢
        rcases hab with hab | ⟨rfl, hab⟩
        · rcases hbc with hbc | ⟨rfl, -⟩
          · exact Or.inl (placeBefore_trans hab hbc)
          · exact Or.inl hab
        · rcases hbc with hbc | ⟨rfl, hbc⟩
          · exact Or.inl hbc
          · exact Or.inr ⟨rfl, ih hab hbc⟩

theorem pathBefore_total (as bs : List (Option Nat)) :
    pathBefore as bs = true ∨ as = bs ∨ pathBefore bs as = true := by
  induction as generalizing bs with
  | nil =>
    cases bs with
    | nil => exact Or.inr (Or.inl rfl)
    | cons b bs => exact Or.inl rfl
  | cons a as ih =>
    cases bs with
    | nil => exact Or.inr (Or.inr rfl)
    | cons b bs =>
      rw [pathBefore_cons_iff, pathBefore_cons_iff]
      rcases placeBefore_total a b with hab | rfl | hba
      · exact Or.inl (Or.inl hab)
      · rcases ih bs with hab | rfl | hba
        · exact Or.inl (Or.inr ⟨rfl, hab⟩)
        · exact Or.inr (Or.inl rfl)
        · exact Or.inr (Or.inr (Or.inr ⟨rfl, hba⟩))
      · exact Or.inr (Or.inr (Or.inl hba))

theorem precedes_irrefl (p : Parameter) : p.precedes p = false := pathBefore_irrefl p.path

theorem precedes_trans {p q r : Parameter} (hpq : p.precedes q = true) (hqr : q.precedes r = true) :
    p.precedes r = true :=
  pathBefore_trans hpq hqr

/-- Two parameters come in one of their orders, unless the same way leads to both. -/
theorem precedes_or_precedes_iff {p q : Parameter} :
    p.precedes q = true ∨ q.precedes p = true ↔ p.path ≠ q.path := by
  constructor
  · intro hOr hEq
    rw [precedes, precedes, hEq, or_self, pathBefore_irrefl] at hOr
    cases hOr
  · intro hNe
    rcases pathBefore_total p.path q.path with hpq | hEq | hqp
    · exact Or.inl hpq
    · exact (hNe hEq).elim
    · exact Or.inr hqp

theorem not_precedes_of_precedes {p q : Parameter} (hpq : p.precedes q = true) :
    q.precedes p = false := by
  rw [Bool.eq_false_iff]
  intro hqp
  have hpp := precedes_trans hpq hqp
  rw [precedes_irrefl] at hpp
  cases hpp

end Parameter

/-! ## Scopes in the same place -/

namespace ScopeTree

variable {t : ScopeTree} {x y p q : ScopeId}

/-- Two scopes to which the same way leads from the root, when the references of a bullet are not told
apart. -/
inductive SamePlace (t : ScopeTree) : ScopeId → ScopeId → Prop
  | root : SamePlace t t.root t.root
  | child {p q x y : ScopeId} {i : Nat} (hOwners : SamePlace t p q) (hx : (t.children p)[i]? = some x)
      (hy : (t.children q)[i]? = some y) : SamePlace t x y
  | reference {p q : ScopeId} {e f : NodeId × ScopeId} (hOwners : SamePlace t p q)
      (he : e ∈ t.transcluded p) (hf : f ∈ t.transcluded q) : SamePlace t e.2 f.2

theorem owns_of_mem_transcluded {e : NodeId × ScopeId} (he : e ∈ t.transcluded p) :
    t.arena.Owns p e.2 := by
  rw [transcluded] at he
  cases hr : t.record? p with
  | none =>
    rw [hr] at he
    cases he
  | some r =>
    rw [hr, Option.map_some, Option.getD_some] at he
    exact ⟨r, hr, List.mem_append_right _ (List.mem_map_of_mem he)⟩

/-- A scope that is referred to has no place among children. -/
theorem Rooted.indexInParent?_of_mem_transcluded (h : t.Rooted) {e : NodeId × ScopeId}
    (he : e ∈ t.transcluded p) : t.indexInParent? e.2 = none := by
  have hOwns := owns_of_mem_transcluded he
  cases hi : t.indexInParent? e.2 with
  | none => rfl
  | some i =>
    have hChild := List.mem_of_getElem? (h.indexInParent?_eq_some_iff.mp ⟨h.parent?_of_owns hOwns, hi⟩)
    obtain ⟨r, hr, -⟩ := hOwns
    have hNodup := (h.linked p r hr).nodup
    rw [children_of_record? hr] at hChild
    rw [transcluded, show t.record? p = some r from hr] at he
    exact (List.nodup_append.mp hNodup).2.2 _ hChild _ (List.mem_map_of_mem he) rfl |>.elim

/-- A scope is one of its owner's children, with a place, or one of the owner's references, without. -/
theorem Rooted.place_cases (h : t.Rooted) (hOwns : t.arena.Owns p x) :
    (∃ i, (t.children p)[i]? = some x ∧ t.indexInParent? x = some i) ∨
      ∃ e ∈ t.transcluded p, e.2 = x ∧ t.indexInParent? x = none := by
  obtain ⟨r, hr, hMem⟩ := hOwns
  rcases List.mem_append.mp hMem with hMem | hMem
  · rw [← children_of_record? hr] at hMem
    obtain ⟨i, hi⟩ := List.mem_iff_getElem?.mp hMem
    exact Or.inl ⟨i, hi, (h.indexInParent?_eq_some_iff.mpr hi).2⟩
  · obtain ⟨e, he, rfl⟩ := List.mem_map.mp hMem
    have he : e ∈ t.transcluded p := by
      rwa [transcluded, show t.record? p = some r from hr]
    exact Or.inr ⟨e, he, rfl, h.indexInParent?_of_mem_transcluded he⟩

theorem Rooted.placePath_root (h : t.Rooted) : t.placePath t.root = [none] := by
  obtain ⟨r, hr, -⟩ := h.root
  have hIndex : t.indexInParent? t.root = none := by
    rw [indexInParent?, h.parent?_root]
    rfl
  rw [placePath, h.upward_eq hr, ancestors, h.parent?_root]
  simp only [List.map_singleton, List.reverse_singleton, hIndex]

theorem Rooted.placePath_of_owns (h : t.Rooted) (hOwns : t.arena.Owns p x) :
    t.placePath x = t.placePath p ++ [t.indexInParent? x] := by
  obtain ⟨r, hr, -⟩ := h.live_of_owns hOwns
  rw [placePath, h.upward_eq hr, ancestors, h.parent?_of_owns hOwns, List.map_cons,
    List.reverse_cons]
  rfl

theorem Rooted.placePath_ne_root (h : t.Rooted) (hOwns : t.arena.Owns p x) :
    t.placePath x ≠ t.placePath t.root := by
  intro hEq
  obtain ⟨r, hr, -⟩ := id hOwns
  rw [h.placePath_of_owns hOwns, h.placePath_root, placePath, h.upward_eq hr] at hEq
  simpa using congrArg List.length hEq

theorem SamePlace.placePath_eq (h : t.Rooted) (hSame : t.SamePlace x y) :
    t.placePath x = t.placePath y := by
  induction hSame with
  | root => rfl
  | child _ hx hy ih =>
    rw [h.placePath_of_owns (owns_of_mem_children (List.mem_of_getElem? hx)),
      h.placePath_of_owns (owns_of_mem_children (List.mem_of_getElem? hy)), ih,
      (h.indexInParent?_eq_some_iff.mpr hx).2, (h.indexInParent?_eq_some_iff.mpr hy).2]
  | reference _ he hf ih =>
    rw [h.placePath_of_owns (owns_of_mem_transcluded he),
      h.placePath_of_owns (owns_of_mem_transcluded hf), ih,
      h.indexInParent?_of_mem_transcluded he, h.indexInParent?_of_mem_transcluded hf]

theorem Rooted.samePlace_of_placePath_eq (h : t.Rooted) {k : Nat} (hx : t.Descends t.root k x)
    (hy : ∃ r, t.record? y = some r) (hEq : t.placePath x = t.placePath y) : t.SamePlace x y := by
  induction hx generalizing y with
  | here =>
    obtain ⟨m, hy⟩ := h.depth_exists hy
    cases hy with
    | here => exact .root
    | step _ hOwns => exact (h.placePath_ne_root hOwns hEq.symm).elim
  | @step k p x _ hOwns ih =>
    obtain ⟨m, hy⟩ := h.depth_exists hy
    cases hy with
    | here => exact (h.placePath_ne_root hOwns hEq).elim
    | @step m q y _ hOwns' =>
      rw [h.placePath_of_owns hOwns, h.placePath_of_owns hOwns'] at hEq
      obtain ⟨hPaths, hIndices⟩ := List.append_inj' hEq rfl
      obtain ⟨r, hr, -⟩ := id hOwns'
      have hSame := ih ⟨r, hr⟩ hPaths
      have hIndices := List.singleton_inj.mp hIndices
      -- Both have the same place among children, or both have none.
      rcases h.place_cases hOwns with ⟨i, hx, hi⟩ | ⟨e, he, rfl, hi⟩ <;>
        rcases h.place_cases hOwns' with ⟨j, hy, hj⟩ | ⟨f, hf, rfl, hj⟩ <;>
        rw [hi, hj] at hIndices
      · cases hIndices
        exact .child hSame hx hy
      · cases hIndices
      · cases hIndices
      · exact .reference hSame he hf

/-- The scopes with equal ways are those in the same place. -/
theorem Rooted.placePath_eq_iff (h : t.Rooted) (hx : ∃ r, t.record? x = some r)
    (hy : ∃ r, t.record? y = some r) : t.placePath x = t.placePath y ↔ t.SamePlace x y := by
  obtain ⟨k, hx⟩ := h.depth_exists hx
  exact ⟨h.samePlace_of_placePath_eq hx hy, SamePlace.placePath_eq h⟩

/-- Natural scopes are told apart by their places. -/
theorem SamePlace.eq_of_natural (h : t.Rooted) (hSame : t.SamePlace x y) (hx : t.Natural x) : x = y := by
  induction hSame with
  | root => rfl
  | child _ hx' hy ih =>
    have hMem := List.mem_of_getElem? hx'
    obtain rfl := ih (h.parent_of_natural hx (h.parent?_of_mem_children hMem)).1
    exact Option.some.inj (hx'.symm.trans hy)
  | reference _ he _ _ =>
    have hChild := (h.parent_of_natural hx (h.parent?_of_owns (owns_of_mem_transcluded he))).2
    obtain ⟨i, hi⟩ := List.mem_iff_getElem?.mp hChild
    have hSome := (h.indexInParent?_eq_some_iff.mpr hi).2
    rw [h.indexInParent?_of_mem_transcluded he] at hSome
    cases hSome

end ScopeTree

/-! ## The pairs that are offered -/

namespace Suggestion

/-- The pairs of parameters of a type that come in the order of the outline. -/
def orderedPairs (type : ValueType) (ps : List Parameter) : List (Parameter × Parameter) :=
  (ps.product ps).filter fun c => c.1.type = type && c.2.type = type && c.1.precedes c.2

/-- What is offered for a pair. -/
def ofPair (function first second : String) (c : Parameter × Parameter) : Suggestion :=
  call function [namedArgument first c.1.reference, namedArgument second c.2.reference]
    (some (c.1.distance + c.2.distance))

variable {type : ValueType} {ps : List Parameter}

theorem mem_orderedPairs_iff {a b : Parameter} :
    (a, b) ∈ orderedPairs type ps ↔
      a ∈ ps ∧ b ∈ ps ∧ a.type = type ∧ b.type = type ∧ a.precedes b = true := by
  simp [orderedPairs, and_assoc]

theorem nodup_orderedPairs (hNodup : ps.Nodup) : (orderedPairs type ps).Nodup :=
  (hNodup.product hNodup).filter _

/-- What is offered for the pairs with a given first parameter. -/
theorem map_ofPair_filter (function first second : String) (a : Parameter) :
    ((ps.map (Prod.mk a)).filter fun c =>
        c.1.type = type && c.2.type = type && c.1.precedes c.2).map (ofPair function first second) =
      ps.filterMap fun b =>
        if a.type = type ∧ b.type = type ∧ a.precedes b = true then
          some (ofPair function first second (a, b)) else none := by
  induction ps with
  | nil => rfl
  | cons b rest ih =>
    rw [List.map_cons, List.filter_cons, List.filterMap_cons, ← ih]
    by_cases hOrdered : a.type = type ∧ b.type = type ∧ a.precedes b = true
    · rw [if_pos hOrdered, if_pos (by simp [hOrdered]), List.map_cons]
    · rw [if_neg hOrdered, if_neg (by simpa [and_assoc] using hOrdered)]

/-- A function with two arguments of one type is offered for the pairs in the order of the outline. -/
theorem pairwise_eq_map (function first second : String) (type : ValueType) (ps : List Parameter) :
    pairwise function (first, type) (second, type) ps =
      (orderedPairs type ps).map (ofPair function first second) := by
  have hPlain : ∀ {β : Type} (f : Parameter → List β),
      ps.flatMap f = ps.zipIdx.flatMap fun e => f e.1 := by
    intro β f
    conv_lhs => rw [← List.zipIdx_map_fst 0 ps, List.flatMap_map]
  rw [orderedPairs, List.product, List.filter_flatMap, List.map_flatMap]
  simp only [map_ofPair_filter]
  rw [hPlain, pairwise]
  refine List.flatMap_congr fun e he => ?_
  obtain ⟨a, i⟩ := e
  have hi := List.mk_mem_zipIdx_iff_getElem?.mp he
  by_cases hType : a.type = type
  · simp only [ne_eq, hType, not_true_eq_false, if_false, true_and]
    conv_rhs => rw [← List.zipIdx_map_fst 0 ps, List.filterMap_map]
    refine List.filterMap_congr fun e he => ?_
    obtain ⟨b, j⟩ := e
    have hj := List.mk_mem_zipIdx_iff_getElem?.mp he
    by_cases hij : i = j
    · -- A parameter does not come before itself.
      subst hij
      obtain rfl : a = b := Option.some.inj (hi.symm.trans hj)
      simp [Parameter.precedes_irrefl]
    · by_cases hOther : b.type = type
      · cases hBefore : a.precedes b <;> simp [hij, hOther, hBefore, ofPair]
      · simp [hOther]
  · simp [hType]

end Suggestion

/-! ## Collected parameters -/

/-- Of two parameters that are collected one precedes the other, unless they stand in the same place. -/
theorem ScopeTree.Rooted.precedes_or_precedes_iff {t : ScopeTree} (h : t.Rooted) {bounds : SearchBounds}
    {x : ScopeId} {a b : Parameter} (ha : a ∈ t.parameters bounds x) (hb : b ∈ t.parameters bounds x) :
    a.precedes b = true ∨ b.precedes a = true ↔ ¬ t.SamePlace a.scope b.scope := by
  have hPlace : ∀ q ∈ t.parameters bounds x,
      q.path = t.placePath q.scope ∧ ∃ r, t.record? q.scope = some r := by
    intro q hq
    obtain ⟨v, -, hParameter⟩ := exists_visit_of_mem_parameters hq
    obtain ⟨⟨hNode, -⟩, -, -, -, hScope, hPath⟩ := parameter?_eq_some_iff.mp hParameter
    obtain ⟨r, hr, -⟩ := Option.map_eq_some_iff.mp hNode
    rw [hScope]
    exact ⟨hPath, r, hr⟩
  obtain ⟨hPathA, hLiveA⟩ := hPlace a ha
  obtain ⟨hPathB, hLiveB⟩ := hPlace b hb
  rw [Parameter.precedes_or_precedes_iff, hPathA, hPathB, ne_eq, h.placePath_eq_iff hLiveA hLiveB]

namespace Session

open ScopeTree

/-- Where both arguments have one type, the pairs that are offered are pairs of the parameters around a
scope, ranked by their distances. Each two parameters of the type are offered in one of their orders
and not in the other, unless they stand in the same place; then they are not offered at all. For the
order of parameters is strict, and it leaves only those undecided that stand in the same place. -/
theorem reachable_pairs (d : Document) (functions : Registry) (config : EngineConfig)
    (providers : Directory) {s : Session}
    (h : Reachable (ofTree (.build d) functions config providers) s) (bounds : SearchBounds)
    (x : ScopeId) (function first second : String) (type : ValueType) :
    (∃ pairs : List (Parameter × Parameter),
      Suggestion.pairwise function (first, type) (second, type) (s.tree.parameters bounds x) =
          pairs.map (Suggestion.ofPair function first second) ∧
        pairs.Nodup ∧
        (∀ a b, (a, b) ∈ pairs → a ∈ s.tree.parameters bounds x ∧ b ∈ s.tree.parameters bounds x ∧
          a.type = type ∧ b.type = type ∧ a ≠ b ∧ (b, a) ∉ pairs) ∧
        ∀ a ∈ s.tree.parameters bounds x, ∀ b ∈ s.tree.parameters bounds x,
          a.type = type → b.type = type →
            ((a, b) ∈ pairs ∨ (b, a) ∈ pairs ↔ ¬ s.tree.SamePlace a.scope b.scope)) ∧
      (∀ a : Parameter, a.precedes a = false) ∧
      (∀ a b c : Parameter, a.precedes b = true → b.precedes c = true → a.precedes c = true) ∧
      ∀ a ∈ s.tree.parameters bounds x, ∀ b ∈ s.tree.parameters bounds x,
        (a.precedes b = true ∨ b.precedes a = true ↔ ¬ s.tree.SamePlace a.scope b.scope) := by
  have hRooted := h.rooted (rooted_build d)
  have hNodup := (hRooted.nearest_parameters bounds x).nodup.of_map
  refine ⟨⟨Suggestion.orderedPairs type (s.tree.parameters bounds x),
      Suggestion.pairwise_eq_map function first second type _, Suggestion.nodup_orderedPairs hNodup,
      fun a b hPair => ?_, fun a ha b hb hTypeA hTypeB => ?_⟩,
    Parameter.precedes_irrefl, fun _ _ _ => Parameter.precedes_trans,
    fun a ha b hb => hRooted.precedes_or_precedes_iff ha hb⟩
  · obtain ⟨ha, hb, hTypeA, hTypeB, hBefore⟩ := Suggestion.mem_orderedPairs_iff.mp hPair
    refine ⟨ha, hb, hTypeA, hTypeB, ?_, fun hPair' => ?_⟩
    · rintro rfl
      rw [Parameter.precedes_irrefl] at hBefore
      cases hBefore
    · have hAfter := (Suggestion.mem_orderedPairs_iff.mp hPair').2.2.2.2
      rw [Parameter.not_precedes_of_precedes hBefore] at hAfter
      cases hAfter
  · rw [Suggestion.mem_orderedPairs_iff, Suggestion.mem_orderedPairs_iff,
      ← hRooted.precedes_or_precedes_iff ha hb]
    simp only [ha, hb, hTypeA, hTypeB, true_and]

/-- Two dates, and a bullet that refers to both of them. -/
def daysOutline : String :=
  "- [s] \x7bDays(#[a], #[b])\x7d\n- [a] 2024-01-01\n- [b] 2024-01-09\n"

def days : Document :=
  ⟨"root", [⟨"root", "", ["s", "a", "b"]⟩, ⟨"s", "\x7bDays(#[a], #[b])\x7d", []⟩,
    ⟨"a", "2024-01-01", []⟩, ⟨"b", "2024-01-09", []⟩], 0⟩

/-- Around the first date the two dates are offered once, in the order of the outline. -/
theorem reachable_pairs_days :
    ∃ s, ∃ pairs : List (Parameter × Parameter), s = ofTree (.build days) [] .default .empty ∧
      Suggestion.pairwise "Days" ("from", .date) ("to", .date)
          (s.tree.parameters ⟨8, 16, 4⟩ ⟨4, 0⟩) =
        [⟨"Days", "\x7bDays(from: #[a], to: #[b])\x7d", some 1⟩] ∧
      Suggestion.pairwise "Days" ("from", .date) ("to", .date)
          (s.tree.parameters ⟨8, 16, 4⟩ ⟨4, 0⟩) =
        pairs.map (Suggestion.ofPair "Days" "from" "to") ∧
      pairs.Nodup ∧ ∀ a b, (a, b) ∈ pairs → a ≠ b ∧ (b, a) ∉ pairs := by
  obtain ⟨⟨pairs, hPairwise, hNodup, hPairs, -⟩, -⟩ := reachable_pairs days [] .default .empty .refl
    ⟨8, 16, 4⟩ ⟨4, 0⟩ "Days" "from" "to" .date
  refine ⟨ofTree (.build days) [] .default .empty, pairs, rfl, ?_, hPairwise, hNodup,
    fun a b hPair => (hPairs a b hPair).2.2.2.2⟩
  rw [parameters_eq_foldl (by decide +kernel)]
  decide +kernel

/-- Around the bullet that refers to the dates they are found through its references, which stand in
the same place. So neither order is offered. -/
theorem pairwise_references :
    Document.ofOutline .start daysOutline.toList = .ok (days, .start) ∧
      ∃ ps, ps = (build days).parameters ⟨8, 16, 4⟩ ⟨1, 0⟩ ∧
        ps.map (fun q => (q.node, q.type, q.distance)) = [("a", .date, 1), ("b", .date, 1)] ∧
        Suggestion.pairwise "Days" ("from", .date) ("to", .date) ps = [] := by
  refine ⟨by cbv, _, rfl, ?_⟩
  rw [parameters_eq_foldl (by decide +kernel)]
  decide +kernel

end Session

end FormulaOutline
