import FormulaOutline.Proofs.Formula.Writing
import FormulaOutline.Proofs.Pattern.Places

/-!
# Patterns give back their examples

The rules of a pattern find the arguments of the example from its anchor, so the formula that the pattern
makes at the anchor is the example itself.

* `Learned`: what a pattern has been learned from.
* `ruleFor_eq`: the rule for an argument, and what it is taken from.
* `ruleFor_cases`: a rule that searches finds what the argument refers to.
* `argument?_ruleFor`: the rule for an argument finds the argument.
* `Learned.synthesize`: the formula at the anchor.
-/

namespace FormulaOutline

open Formula ScopeTree

variable {t : ScopeTree} {x y : ScopeId} {type : ValueType}

theorem node?_of_scopeForNode? {n : NodeId} (h : t.scopeForNode? n = some x) :
    t.node? x = some n ∧ t.isTransclusion x = false := by
  rw [scopeForNode?_eq_find] at h
  obtain ⟨e, he, rfl⟩ := Option.map_eq_some_iff.mp h
  have hMem := List.mem_of_find?_eq_some he
  have hFound := List.find?_some he
  simp only [Bool.and_eq_true, Bool.not_eq_true', beq_iff_eq] at hFound
  have hRecord : t.record? e.1 = some e.2 := Arena.mem_entries_iff.mp hMem
  exact ⟨by rw [node?, hRecord, Option.map_some, hFound.2], by rw [isTransclusion_of_mem hMem, hFound.1]⟩

/-- An argument that refers to a node as a whole is no more than a reference to it. -/
theorem withoutSpans_of_target? {arg : Argument Expr} {n : NodeId} (h : arg.target? = some n) :
    arg.value.withoutSpans = .reference .none n := by
  rw [Argument.target?] at h
  split at h
  · rename_i hValue
    cases h
    rw [hValue]
    rfl
  · cases h

/-! ## Rules -/

theorem exists_of_siblingRule? (h : t.Rooted) {rule : Rule}
    (hRule : Pattern.siblingRule? t type x y = some rule) :
    ∃ p s m q, m.any (t.valueType? · = some type) = false ∧
      ((t.children p = s ++ x :: (m ++ y :: q) ∧ rule = .prevSibling type) ∨
        (t.children p = s ++ y :: (m ++ x :: q) ∧ rule = .nextSibling type)) := by
  have hxy : x ≠ y := by
    rintro rfl
    rw [siblingRule?_self] at hRule
    cases hRule
  have hParent : t.parent? x = t.parent? y := by
    by_contra hne
    rw [siblingRule?_of_ne hne] at hRule
    cases hRule
  obtain ⟨i, k, hi, hk⟩ : ∃ i k, t.indexInParent? x = some i ∧ t.indexInParent? y = some k := by
    rw [Pattern.siblingRule?] at hRule
    obtain ⟨p, -, hRule⟩ := Option.bind_eq_some_iff.mp hRule
    split at hRule
    · cases hRule
    · obtain ⟨k, hk, hRule⟩ := Option.bind_eq_some_iff.mp hRule
      obtain ⟨i, hi, -⟩ := Option.bind_eq_some_iff.mp hRule
      exact ⟨i, k, hi, hk⟩
  obtain ⟨p, hp, hxp⟩ := mem_children_of_indexInParent? hi
  obtain ⟨q, hq, hyq⟩ := mem_children_of_indexInParent? hk
  obtain rfl : p = q := Option.some.inj (hp.symm.trans (hParent.trans hq))
  obtain ⟨s, m, q, hc | hc⟩ := split_two hxp hyq hxy
  · rw [siblingRule?_prev h hc] at hRule
    split at hRule
    · cases hRule
    · rename_i hNone
      cases hRule
      exact ⟨p, s, m, q, by simpa using hNone, Or.inl ⟨hc, rfl⟩⟩
  · rw [siblingRule?_next h hc] at hRule
    split at hRule
    · cases hRule
    · rename_i hNone
      cases hRule
      exact ⟨p, s, m, q, by simpa using hNone, Or.inr ⟨hc, rfl⟩⟩

/-- The scope that is nearest among others is found if none before it has its type. -/
theorem find?_nearest {m q : List ScopeId} (hType : t.valueType? x = some type)
    (hNone : m.any (t.valueType? · = some type) = false) :
    (m ++ x :: q).find? (t.valueType? · = some type) = some x := by
  rw [List.find?_append, ← List.isSome_find?, Option.isSome_eq_false_iff] at *
  rw [Option.isNone_iff_eq_none.mp hNone, Option.none_or, List.find?_cons_of_pos (by simpa using hType)]

theorem findNode?_of_siblingRule? (h : t.Rooted) {rule : Rule} (hType : t.valueType? x = some type)
    (hRule : Pattern.siblingRule? t type x y = some rule) :
    Pattern.findNode? t y rule = t.node? x := by
  obtain ⟨p, s, m, q, hNone, ⟨hc, rfl⟩ | ⟨hc, rfl⟩⟩ := exists_of_siblingRule? h hRule
  · obtain ⟨-, hp, -, hk⟩ := h.indices_of_split hc
    have hBefore : (t.children p).take (s.length + m.length + 1) = s ++ x :: m := by
      have hc' : t.children p = (s ++ x :: m) ++ y :: q := by rw [hc]; simp
      rw [hc', show s.length + m.length + 1 = (s ++ x :: m).length by simp; omega, List.take_left]
    have hNone' : m.reverse.any (t.valueType? · = some type) = false := by rwa [List.any_reverse]
    simp only [Pattern.findNode?, hp, hk, bind, Option.bind_some, hBefore, List.reverse_append,
      List.reverse_cons, List.append_assoc, List.singleton_append, find?_nearest hType hNone']
  · obtain ⟨hp, -, hi, -⟩ := h.indices_of_split hc
    simp only [Pattern.findNode?, hp, hi, bind, Option.bind_some, hc, drop_succ_length,
      find?_nearest hType hNone]

theorem findNode?_of_isClosestAncestor (hType : t.valueType? x = some type)
    (hAbove : Pattern.isClosestAncestor t type x y = true) :
    Pattern.findNode? t y (.closestAncestor type) = t.node? x := by
  have hTyped : ∀ z, (z = x || t.valueType? z = some type) = decide (t.valueType? z = some type) := by
    intro z
    by_cases hz : z = x
    · simp [hz, hType]
    · simp [hz]
  rw [isClosestAncestor_eq, beq_iff_eq] at hAbove
  simp only [hTyped] at hAbove
  rw [Pattern.findNode?, find?_ancestors t y fun z => t.valueType? z = some type, hAbove,
    Option.bind_some]

/-- The rule that finds a scope from another one, if it is clear. -/
def relation? (t : ScopeTree) (type : ValueType) (x y : ScopeId) : Option Rule :=
  if Pattern.isClosestAncestor t type x y then some (.closestAncestor type)
  else Pattern.siblingRule? t type x y

/-- The rule for an argument, if it is not taken as it is. -/
def argumentRule? (t : ScopeTree) (y : ScopeId) (arg : Argument Expr) : Option Rule :=
  (arg.target?.bind t.scopeForNode?).bind fun x =>
    (t.valueType? x).bind fun type => relation? t type x y

theorem ruleFor_eq (t : ScopeTree) (y : ScopeId) (arg : Argument Expr) :
    Pattern.ruleFor t y arg = (argumentRule? t y arg).getD (.literal arg.value.withoutSpans) := by
  rw [Pattern.ruleFor, argumentRule?, Argument.target?]
  refine congrArg (Option.getD · _) ?_
  cases arg.value <;> rfl

theorem argumentRule?_eq_some {arg : Argument Expr} {rule : Rule}
    (h : argumentRule? t y arg = some rule) : ∃ n x type, arg.target? = some n ∧
      t.scopeForNode? n = some x ∧ t.valueType? x = some type ∧ relation? t type x y = some rule := by
  obtain ⟨x, hx, h⟩ := Option.bind_eq_some_iff.mp h
  obtain ⟨n, hn, hScope⟩ := Option.bind_eq_some_iff.mp hx
  obtain ⟨type, hType, hRule⟩ := Option.bind_eq_some_iff.mp h
  exact ⟨n, x, type, hn, hScope, hType, hRule⟩

/-- A rule that searches for a scope of a type. -/
def Rule.IsSearch : Rule → Prop
  | .closestAncestor _ | .prevSibling _ | .nextSibling _ => True
  | .anchor | .literal _ => False

/-- A clear rule finds the scope. -/
theorem findNode?_of_relation? (h : t.Rooted) {rule : Rule} (hType : t.valueType? x = some type)
    (hRule : relation? t type x y = some rule) :
    rule.IsSearch ∧ Pattern.findNode? t y rule = t.node? x := by
  rw [relation?] at hRule
  split at hRule
  · rename_i hAbove
    cases hRule
    exact ⟨trivial, findNode?_of_isClosestAncestor hType hAbove⟩
  · refine ⟨?_, findNode?_of_siblingRule? h hType hRule⟩
    obtain ⟨-, -, -, -, -, ⟨-, rfl⟩ | ⟨-, rfl⟩⟩ := exists_of_siblingRule? h hRule <;> trivial

/-- An argument is taken as it is, or its rule searches for what it refers to and finds that. -/
theorem ruleFor_cases (h : t.Rooted) (y : ScopeId) (arg : Argument Expr) :
    Pattern.ruleFor t y arg = .literal arg.value.withoutSpans ∨
      (Pattern.ruleFor t y arg).IsSearch ∧ ∃ n, arg.target? = some n ∧
        Pattern.findNode? t y (Pattern.ruleFor t y arg) = some n := by
  rw [ruleFor_eq]
  cases hRule : argumentRule? t y arg with
  | none => exact .inl rfl
  | some rule =>
    obtain ⟨n, x, type, hn, hScope, hType, hRelation⟩ := argumentRule?_eq_some hRule
    obtain ⟨hSearch, hFound⟩ := findNode?_of_relation? h hType hRelation
    exact .inr ⟨hSearch, n, hn, hFound.trans (node?_of_scopeForNode? hScope).1⟩

theorem argument?_of_isSearch {rule : Rule} (h : rule.IsSearch) (t : ScopeTree) (y : ScopeId) :
    Pattern.argument? t y rule = (Pattern.findNode? t y rule).map (.reference .none) := by
  cases rule with
  | literal e => exact h.elim
  | _ => rfl

/-- The rule for an argument finds the argument from the anchor. -/
theorem argument?_ruleFor (h : t.Rooted) (arg : Argument Expr) :
    Pattern.argument? t y (Pattern.ruleFor t y arg) = some arg.value.withoutSpans := by
  rcases ruleFor_cases h y arg with hLiteral | ⟨hSearch, n, hn, hFound⟩
  · rw [hLiteral]
    rfl
  · rw [argument?_of_isSearch hSearch, hFound, withoutSpans_of_target? hn, Option.map_some]

/-! ## Examples -/

theorem mapM_eq_some {α β : Type} {f : α → Option β} {g : α → β} {l : List α}
    (h : ∀ a ∈ l, f a = some (g a)) : l.mapM f = some (l.map g) := by
  induction l with
  | nil => rfl
  | cons a l ih =>
    rw [List.forall_mem_cons] at h
    rw [List.mapM_cons, h.1, ih h.2]
    rfl

/-- A pattern has been learned from the call at a scope, one of whose arguments is the anchor. -/
structure Learned (t : ScopeTree) (functions : Registry) (site : ScopeId) (p : Pattern)
    (args : List (Argument Expr)) (place : Nat) (beside : ScopeId) : Prop where
  call : ∃ s, (t.record? site).bind (fun r => r.bullet.singleCall?) = some (.call s p.function args)
  anchor : Pattern.findAnchor? t (((functions.find? p.function).map Function.parameters).getD []) site
    args = some (place, beside, p.anchor)
  arguments : p.arguments = args.zipIdx.map fun (arg, index) =>
    (arg.name, if index = place then .anchor else Pattern.ruleFor t beside arg)

theorem learn_eq_ok_iff {functions : Registry} {p : Pattern} :
    Pattern.learn t functions x = .ok p ↔ p.learnedFrom = (t.node? x).getD "" ∧
      ∃ args place beside,
        Learned t functions (Pattern.siteOf t x ((t.node? x).getD "")) p args place beside := by
  generalize hNode : (t.node? x).getD "" = node
  generalize hSite : Pattern.siteOf t x node = site
  constructor
  · intro hLearn
    rw [Pattern.learn] at hLearn
    simp only [hNode, hSite] at hLearn
    split at hLearn
    · rename_i s function args hCall
      split at hLearn
      · rename_i place anchor found hAnchor
        cases hLearn
        exact ⟨rfl, args, place, anchor, ⟨⟨s, hCall⟩, hAnchor, rfl⟩⟩
      · cases hLearn
    · cases hLearn
  · rintro ⟨rfl, args, place, anchor, ⟨s, hCall⟩, hAnchor, hArguments⟩
    rw [Pattern.learn]
    simp only [hNode, hSite, hCall, hAnchor]
    rw [← hArguments]

namespace Learned

variable {functions : Registry} {site beside : ScopeId} {p : Pattern} {args : List (Argument Expr)}
  {place : Nat}

/-- The argument of the anchor. -/
theorem exists_argument (h : Learned t functions site p args place beside) :
    ∃ arg, args[place]? = some arg ∧ Pattern.anchor? t
      (((functions.find? p.function).map Function.parameters).getD []) site arg place =
        some (beside, p.anchor) := by
  obtain ⟨before, ⟨arg, i⟩, after, hSplit, hHere, -⟩ := List.findSome?_eq_some_iff.mp h.anchor
  obtain ⟨⟨y, anchor⟩, hSome, hEq⟩ := Option.map_eq_some_iff.mp hHere
  simp only [Prod.mk.injEq] at hEq
  obtain ⟨rfl, rfl, rfl⟩ := hEq
  refine ⟨arg, ?_, hSome⟩
  have hMem : (arg, i) ∈ args.zipIdx := hSplit ▸ by simp
  exact List.mem_zipIdx_iff_getElem?.mp hMem

/-- At its anchor a pattern makes its example. -/
theorem synthesize (h : Learned t functions site p args place beside) (hRooted : t.Rooted) :
    p.synthesize t beside = some (Expr.call .none p.function args).withoutSpans := by
  obtain ⟨found, hPlace, hAnchor⟩ := h.exists_argument
  obtain ⟨⟨n, hn, hScope⟩, -⟩ := anchor?_eq_some_iff.mp hAnchor
  have hEach : ∀ a ∈ args.zipIdx,
      Pattern.argument? t beside (if a.2 = place then .anchor else Pattern.ruleFor t beside a.1) =
        some a.1.value.withoutSpans := by
    rintro ⟨arg, i⟩ hMem
    rw [List.mem_zipIdx_iff_getElem?] at hMem
    split
    · rename_i hi
      obtain rfl : arg = found := by
        rw [hi, hPlace] at hMem
        exact (Option.some.inj hMem).symm
      rw [Pattern.argument?, Pattern.findNode?, (node?_of_scopeForNode? hScope).1]
      · rw [withoutSpans_of_target? hn]
        rfl
      · simp
    · exact argument?_ruleFor hRooted arg
  have hArguments : p.arguments.mapM (fun arg => (Pattern.argument? t beside arg.2).map
      fun value => (⟨arg.1, value, .none⟩ : Argument Expr)) =
        some (Expr.argumentsWithoutSpans args) := by
    let plain (arg : Argument Expr) : Argument Expr := ⟨arg.name, arg.value.withoutSpans, .none⟩
    have hFirst : args.zipIdx.map (plain ∘ Prod.fst) = args.map plain := by
      rw [← List.map_map, List.zipIdx_map_fst]
    rw [h.arguments, List.mapM_map, argumentsWithoutSpans_eq, ← hFirst]
    refine mapM_eq_some fun a ha => ?_
    rw [Function.comp_apply, hEach a ha, Option.map_some]
    rfl
  rw [Pattern.synthesize, Expr.withoutSpans]
  exact congrArg (Option.bind · _) hArguments

end Learned

end FormulaOutline
