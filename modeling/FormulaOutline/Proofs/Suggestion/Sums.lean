import FormulaOutline.Function.Builtin
import FormulaOutline.Proofs.Suggestion.Nearest

/-!
# Where a sum is suggested

`Sum()` adds the children of its scope. It is suggested, with a rank, where two parameters are numbers
right below the scope; but what the scope refers to stands right below it too.

* `mem_parameters_iff`: the parameter of a node is the first one of the nearest that the search meets.
* `NumberBelow`: the nodes whose parameter is a number right below a scope, and
  `exists_numberBelow_iff` that these are the parameters that are counted.
* `Suggestion.ranked_sum_iff`: of all functions it is only `Sum` that suggests `Sum()`.
* `two_numbers_below_of_suggestsSum`: where `Sum()` is suggested, and that two children are numbers
  there if the references add no number of their own.
* `suggestsSum_references`: it is suggested where there are only references and no children.
-/

namespace FormulaOutline

namespace ScopeTree

variable {t : ScopeTree} {bounds : SearchBounds} {x y : ScopeId} {n : NodeId} {v : Visit}

/-! ## The first of the nearest sources -/

/-- The parameters that the search meets, in its order. -/
def sources (t : ScopeTree) (bounds : SearchBounds) (x : ScopeId) : List Parameter :=
  (t.visits bounds x).filterMap t.parameter?

/-- What is kept of a node is the first one at its distance. -/
theorem find?_of_mem_kept {q : Parameter} (found : List Parameter)
    (hq : q ∈ found.foldl (fun kept p => keepNearest p kept) []) :
    found.find? (fun p => p.node = q.node ∧ p.distance = q.distance) = some q := by
  induction found using List.reverseRecOn with
  | nil => cases hq
  | append_singleton found p ih =>
    have hKept := kept_foldl found
    rw [List.foldl_append, List.foldl_cons, List.foldl_nil] at hq
    rw [List.find?_append]
    rcases (mem_keepNearest_iff hKept.nodup).mp hq with ⟨hq, -⟩ | ⟨rfl, hLess⟩
    · rw [ih hq, Option.some_or]
    · -- All that came before of the node is farther away than what is kept of it.
      have hNone : found.find? (fun p => p.node = q.node ∧ p.distance = q.distance) = none := by
        rw [List.find?_eq_none]
        intro o ho hSame
        obtain ⟨hNode, hDistance⟩ := of_decide_eq_true hSame
        obtain ⟨k, hk, hkNode⟩ := List.mem_map.mp (hKept.covers o ho)
        have := hLess k hk (hkNode.trans hNode)
        have := hKept.least k hk o ho hkNode.symm
        omega
      rw [hNone, Option.none_or, List.find?_cons_of_pos (by simp)]

/-- A parameter is the first one that the search meets of those that are nearest of its node. -/
theorem mem_parameters_iff {q : Parameter} :
    q ∈ t.parameters bounds x ↔
      (∀ p ∈ t.sources bounds x, p.node = q.node → q.distance ≤ p.distance) ∧
        (t.sources bounds x).find? (fun p => p.node = q.node ∧ p.distance = q.distance) = some q := by
  have hKept := kept_foldl (t.sources bounds x)
  have hMem : ∀ {q}, q ∈ t.parameters bounds x ↔
      q ∈ (t.sources bounds x).foldl (fun kept p => keepNearest p kept) [] :=
    (List.mergeSort_perm _ _).mem_iff
  constructor
  · intro hq
    have hq := hMem.mp hq
    exact ⟨fun p hp hNode => hKept.least q hq p hp hNode, find?_of_mem_kept _ hq⟩
  · rintro ⟨hLeast, hFirst⟩
    have hFound := List.mem_of_find?_eq_some hFirst
    obtain ⟨k, hk, hNode⟩ := List.mem_map.mp (hKept.covers q hFound)
    have hDistance : k.distance = q.distance :=
      Nat.le_antisymm (hKept.least k hk q hFound hNode.symm) (hLeast k (hKept.sub k hk) hNode)
    have hSame := find?_of_mem_kept _ hk
    rw [hNode, hDistance, hFirst] at hSame
    rw [hMem, Option.some.inj hSame]
    exact hk

theorem nodup_parameters (t : ScopeTree) (bounds : SearchBounds) (x : ScopeId) :
    ((t.parameters bounds x).map Parameter.node).Nodup :=
  ((List.mergeSort_perm _ _).map Parameter.node).nodup_iff.mpr (kept_foldl _).nodup

/-! ## Right below a scope -/

/-- The scopes right below a scope: its children, and then those that it refers to. -/
def rightBelow (t : ScopeTree) (x : ScopeId) : List ScopeId :=
  t.children x ++ (t.transcluded x).map Prod.snd

theorem rightBelow_eq : t.rightBelow x = ((t.record? x).map ScopeRecord.owned).getD [] := by
  rw [rightBelow, children, transcluded]
  cases t.record? x <;> rfl

theorem filter_levelsBelow_zero (levels : Nat) :
    (t.levelsBelow levels x).filter (fun e => e.2 = 0) = [(x, 0)] := by
  cases levels with
  | zero => rfl
  | succ levels =>
    rw [levelsBelow, List.filter_cons_of_pos (by simp), List.filter_flatMap]
    simp [List.filter_map, Function.comp_def]

theorem filter_levelsBelow_one (levels : Nat) :
    (t.levelsBelow (levels + 1) x).filter (fun e => e.2 = 1) =
      (t.rightBelow x).map fun y => (y, 1) := by
  rw [levelsBelow, ← rightBelow_eq, List.filter_cons_of_neg (by simp), List.filter_flatMap]
  have hOne : ∀ y, ((t.levelsBelow levels y).map fun e => (e.1, e.2 + 1)).filter (fun e => e.2 = 1) =
      [(y, 1)] := by
    intro y
    rw [List.filter_map]
    simp only [Function.comp_def, Nat.add_eq_right]
    rw [filter_levelsBelow_zero, List.map_singleton]
  rw [List.flatMap_congr fun y _ => hOne y, List.map_eq_flatMap]

theorem filter_visitsBelow_one (levels : Nat) :
    (t.visitsBelow .self 0 (levels + 1) x).filter (fun v => v.distance = 1) =
      (t.rightBelow x).map fun y => ⟨.self, 1, y⟩ := by
  rw [visitsBelow, List.filter_map]
  simp only [Function.comp_def, Nat.zero_add]
  rw [filter_levelsBelow_one, List.map_map]
  rfl

/-- What the search meets above and beside a scope is at least one step away. -/
theorem elsewhere_of_mem (hv : v ∈ t.visitsAbove bounds x ++ t.visitsBeside bounds x) :
    v.relationship ≠ .self ∧ 1 ≤ v.distance := by
  have hBelow : ∀ {relationship : Relationship} {distance levels : Nat} {y : ScopeId},
      relationship ≠ .self → 1 ≤ distance → v ∈ t.visitsBelow relationship distance levels y →
        v.relationship ≠ .self ∧ 1 ≤ v.distance := by
    intro relationship distance levels y hElse hOne hv
    obtain ⟨k, z, -, -, rfl⟩ := mem_visitsBelow_iff.mp hv
    exact ⟨hElse, Nat.le_add_right_of_le hOne⟩
  rcases List.mem_append.mp hv with hv | hv
  · rw [visitsAbove] at hv
    obtain ⟨⟨⟨a, r⟩, hops⟩, hAt, hv⟩ := List.mem_flatMap.mp hv
    have hOne := (List.mk_mem_zipIdx_iff_le_and_getElem?_sub.mp hAt).1
    rcases List.mem_cons.mp hv with rfl | hv
    · exact ⟨by simp, hOne⟩
    · obtain ⟨e, -, hv⟩ := List.mem_flatMap.mp hv
      exact hBelow (by simp) (Nat.le_add_left 1 hops) hv
  · rw [visitsBeside] at hv
    split at hv
    · simp only [List.mem_flatMap, List.mem_append, List.mem_range'_1] at hv
      obtain ⟨offset, ⟨hOne, -⟩, hv | hv⟩ := hv <;> split at hv
      · exact hBelow (by simp) hOne hv
      · cases hv
      · exact hBelow (by simp) hOne hv
      · cases hv
    · cases hv

/-- Only the scope itself is no step away. -/
theorem mem_visits_zero_iff (hZero : v.distance = 0) :
    v ∈ t.visits bounds x ↔ v = ⟨.self, 0, x⟩ := by
  rw [visits, List.append_assoc, List.mem_append]
  constructor
  · rintro (hv | hv)
    · obtain ⟨k, y, hBelow, -, rfl⟩ := mem_visitsBelow_iff.mp hv
      obtain rfl : k = 0 := by simpa using hZero
      cases hBelow
      rfl
    · exact absurd (elsewhere_of_mem hv).2 (by omega)
  · rintro rfl
    exact Or.inl (mem_visitsBelow_iff.mpr ⟨0, x, .here, Nat.zero_le _, rfl⟩)

/-! ## Numbers right below a scope -/

/-- A scope has a typed value that the search takes for one of its node. -/
def IsSource (t : ScopeTree) (n : NodeId) (y : ScopeId) : Prop :=
  t.node? y = some n ∧ t.isPlaceholder y = false ∧
    t.valueType? y ≠ none ∧ t.valueType? y ≠ some .text

instance : Decidable (t.IsSource n y) := inferInstanceAs (Decidable (_ ∧ _ ∧ _ ∧ _))

theorem isSource_iff : t.IsSource n v.scope ↔ ∃ type, t.Supplies v n type := by
  simp only [IsSource, Supplies]
  cases t.valueType? v.scope <;> simp

/-- A source makes up a parameter, and only a source of its node does. -/
theorem any_parameter? :
    (t.parameter? v).any (fun p => p.node = n) = decide (t.IsSource n v.scope) := by
  rw [Bool.eq_iff_iff, Option.any_eq_true, decide_eq_true_eq, isSource_iff]
  constructor
  · rintro ⟨q, hq, hNode⟩
    obtain rfl := of_decide_eq_true hNode
    exact ⟨q.type, (parameter?_eq_some_iff.mp hq).1⟩
  · rintro ⟨type, hSupplies⟩
    obtain ⟨q, hq, hNode, -⟩ := hSupplies.exists_parameter
    exact ⟨q, hq, decide_eq_true hNode⟩

/-- The first source of a node right below a scope is a number, and the scope itself is no source of
it. -/
def NumberBelow (t : ScopeTree) (x : ScopeId) (n : NodeId) : Prop :=
  ¬ t.IsSource n x ∧ ∃ y, (t.rightBelow x).find? (t.IsSource n) = some y ∧
    t.valueType? y = some .number

instance : Decidable (t.NumberBelow x n) :=
  decidable_of_iff (¬ t.IsSource n x ∧ ((t.rightBelow x).find? (t.IsSource n)).any
    fun y => t.valueType? y = some .number) (by simp [NumberBelow, Option.any_eq_true])

/-- The first parameter of a node that the search meets one step below a scope. -/
theorem find?_sources_iff {q : Parameter} (hSelf : q.relationship = .self) :
    (t.sources bounds x).find? (fun p => p.node = n ∧ p.distance = 1) = some q ↔
      1 ≤ bounds.maxSubtreeDepth ∧ ∃ y, (t.rightBelow x).find? (t.IsSource n) = some y ∧
        t.parameter? ⟨.self, 1, y⟩ = some q := by
  have hOwn : ∀ {v p}, t.parameter? v = some p → p.relationship = v.relationship ∧
      p.distance = v.distance := by
    intro v p hp
    obtain ⟨-, -, hRelationship, hDistance, -⟩ := parameter?_eq_some_iff.mp hp
    exact ⟨hRelationship, hDistance⟩
  have hElse : ((t.visitsAbove bounds x ++ t.visitsBeside bounds x).filterMap t.parameter?).find?
      (fun p => p.node = n ∧ p.distance = 1) ≠ some q := by
    intro hq
    obtain ⟨v, hv, hq⟩ := List.mem_filterMap.mp (List.mem_of_find?_eq_some hq)
    exact (elsewhere_of_mem hv).1 ((hOwn hq).1.symm.trans hSelf)
  have hStep : ∀ v, (t.parameter? v).any (fun p => p.node = n ∧ p.distance = 1) =
      decide (v.distance = 1 ∧ t.IsSource n v.scope) := by
    intro v
    rw [Bool.decide_and, ← any_parameter?]
    cases hp : t.parameter? v with
    | none => simp
    | some p => simp [(hOwn hp).2, Bool.and_comm]
  have hBelow : (t.sources bounds x).find? (fun p => p.node = n ∧ p.distance = 1) = some q ↔
      (((t.visitsBelow .self 0 bounds.maxSubtreeDepth x).filter fun v => v.distance = 1).find?
        fun v => t.IsSource n v.scope).bind t.parameter? = some q := by
    rw [sources, visits, List.append_assoc, List.filterMap_append, List.find?_append,
      Option.or_eq_some_iff, List.find?_filterMap, List.find?_filter, funext hStep]
    simp only [decide_eq_true_eq, hElse, and_false, or_false]
  rw [hBelow]
  cases hLevels : bounds.maxSubtreeDepth with
  | zero =>
    simp [visitsBelow, levelsBelow]
  | succ levels =>
    rw [filter_visitsBelow_one, List.find?_map, Option.bind_map, Option.bind_eq_some_iff]
    simp

/-- The parameters that are numbers right below a scope are those of the nodes that have one there. -/
theorem exists_numberBelow_iff :
    (∃ q ∈ t.parameters bounds x, q.node = n ∧ Functions.isNumberBelow q) ↔
      1 ≤ bounds.maxSubtreeDepth ∧ t.NumberBelow x n := by
  have hHere : ⟨.self, 0, x⟩ ∈ t.visits bounds x := (mem_visits_zero_iff rfl).mpr rfl
  constructor
  · rintro ⟨q, hq, rfl, hNumber⟩
    obtain ⟨⟨hSelf, hOne⟩, hType⟩ : (q.relationship = .self ∧ q.distance = 1) ∧ q.type = .number := by
      simpa [Functions.isNumberBelow] using hNumber
    obtain ⟨hLeast, hFirst⟩ := mem_parameters_iff.mp hq
    rw [hOne, find?_sources_iff hSelf] at hFirst
    obtain ⟨hDepth, y, hy, hParameter⟩ := hFirst
    refine ⟨hDepth, fun hSource => ?_, y, hy, ?_⟩
    · obtain ⟨type, hSupplies⟩ := isSource_iff (v := ⟨.self, 0, x⟩).mp hSource
      obtain ⟨p, hp, hNode, hZero⟩ := hSupplies.exists_parameter
      have hLe := hLeast p (List.mem_filterMap.mpr ⟨_, hHere, hp⟩) hNode
      rw [hOne, hZero] at hLe
      exact Nat.not_succ_le_zero 0 hLe
    · rw [← hType]
      exact (parameter?_eq_some_iff.mp hParameter).1.2.2.1
  · rintro ⟨hDepth, hApart, y, hy, hType⟩
    have hSource : t.IsSource n y := by simpa using List.find?_some hy
    obtain ⟨type, hSupplies⟩ := isSource_iff (v := ⟨.self, 1, y⟩).mp hSource
    obtain ⟨q, hq, rfl, hOne⟩ := hSupplies.exists_parameter
    obtain ⟨hSupplies, -, hSelf, -⟩ := parameter?_eq_some_iff.mp hq
    have hNumber : q.type = .number := Option.some.inj (hSupplies.2.2.1.symm.trans hType)
    refine ⟨q, mem_parameters_iff.mpr ⟨fun p hp hNode => ?_, ?_⟩, rfl, ?_⟩
    · obtain ⟨v, hv, hp⟩ := List.mem_filterMap.mp hp
      obtain ⟨hSupplies, -, -, hDistance, -⟩ := parameter?_eq_some_iff.mp hp
      rw [hOne, hDistance]
      by_contra hZero
      have hZero : v.distance = 0 := Nat.lt_one_iff.mp (Nat.lt_of_not_le hZero)
      obtain rfl := (mem_visits_zero_iff hZero).mp hv
      rw [hNode] at hSupplies
      exact hApart (isSource_iff.mpr ⟨p.type, hSupplies⟩)
    · rw [hOne]
      exact (find?_sources_iff hSelf).mpr ⟨hDepth, y, hy, hq⟩
    · simp [Functions.isNumberBelow, hSelf, hOne, hNumber]

end ScopeTree

/-! ## What suggests a sum -/

namespace Suggestion

variable {o : Suggestion} {f g : String} {ps : List Parameter}

theorem mem_of_mem_distinct {os : List Suggestion} (ho : o ∈ distinct os) : o ∈ os := by
  induction os with
  | nil => cases ho
  | cons s rest ih =>
    rw [distinct] at ho
    rcases List.mem_cons.mp ho with rfl | ho
    · exact List.mem_cons_self
    · exact List.mem_cons_of_mem s (ih (List.mem_filter.mp ho).1)

/-- The text of a call begins with its name. -/
theorem takeWhile_expression_call (as : List (Formula.Argument Formula.Expr)) (r : Option Nat)
    (hf : '(' ∉ f.toList) : (call f as r).expression.toList.tail.takeWhile (· ≠ '(') = f.toList := by
  have hText : (call f as r).expression.toList.tail =
      f.toList ++ '(' :: (Formula.Expr.writeArguments as ++ [')', '\x7d']) := by
    simp [call, Formula.Expr.pretty, Formula.Expr.write]
  rw [hText, List.takeWhile_append_of_pos]
  · simp
  · intro c hc
    exact decide_eq_true fun hEq => hf (hEq ▸ hc)

theorem name_eq_of_expression_eq {as bs : List (Formula.Argument Formula.Expr)} {m r : Option Nat}
    (hf : '(' ∉ f.toList) (hg : '(' ∉ g.toList)
    (h : (call f as m).expression = (call g bs r).expression) : f = g := by
  rw [← String.toList_inj, ← takeWhile_expression_call as m hf, h, takeWhile_expression_call bs r hg]

theorem exists_call_of_mem_single {argument : String} {type : ValueType}
    (ho : o ∈ single f argument type ps) : ∃ args r, o = call f args r := by
  obtain ⟨p, -, rfl⟩ := List.mem_map.mp ho
  exact ⟨_, _, rfl⟩

theorem exists_call_of_mem_pairwise {first second : String × ValueType}
    (ho : o ∈ pairwise f first second ps) : ∃ args r, o = call f args r := by
  rw [pairwise] at ho
  obtain ⟨⟨a, i⟩, -, ho⟩ := List.mem_flatMap.mp ho
  dsimp only at ho
  split at ho
  · cases ho
  · obtain ⟨⟨b, j⟩, -, ho⟩ := List.mem_filterMap.mp ho
    split at ho
    · cases ho
    · obtain rfl := Option.some.inj ho
      exact ⟨_, _, rfl⟩

theorem exists_call_of_mem_suggestions {hasWeather : Bool} {function : Function}
    (hFunction : function ∈ Registry.builtin hasWeather) (ho : o ∈ function.suggestions ps) :
    ∃ args r, o = call function.name args r := by
  have hBoth : ∀ {f argument : String} {type : ValueType} {first second : String × ValueType},
      o ∈ pairwise f first second ps ++ single f argument type ps → ∃ args r, o = call f args r :=
    fun ho => (List.mem_append.mp ho).elim exists_call_of_mem_pairwise exists_call_of_mem_single
  simp only [Registry.builtin, List.mem_cons, List.not_mem_nil, or_false] at hFunction
  rcases hFunction with rfl | rfl | rfl | rfl | rfl | rfl | rfl | rfl
  · cases ho
  · rw [Functions.sum] at ho
    dsimp only at ho
    split at ho
    · exact ⟨_, _, List.mem_singleton.mp ho⟩
    · cases ho
  · exact exists_call_of_mem_pairwise ho
  · exact exists_call_of_mem_pairwise ho
  · exact exists_call_of_mem_pairwise ho
  · cases ho
  · exact hBoth ho
  · exact hBoth ho

/-- What a function offers calls that function. -/
theorem exists_call_of_mem_offers {hasWeather : Bool} {function : Function}
    (hFunction : function ∈ Registry.builtin hasWeather) (ho : o ∈ function.offers ps) :
    ∃ args r, o = call function.name args r := by
  have hTemplate : ∀ s, function.autocomplete = some s → ∃ args r, s = call function.name args r := by
    simp only [Registry.builtin, List.mem_cons, List.not_mem_nil, or_false] at hFunction
    rcases hFunction with rfl | rfl | rfl | rfl | rfl | rfl | rfl | rfl <;> rintro s hs <;> cases hs
    all_goals exact ⟨_, _, rfl⟩
  rcases List.mem_append.mp ho with ho | ho
  · exact exists_call_of_mem_suggestions hFunction ho
  · obtain ⟨s, hs, rfl⟩ := Option.map_eq_some_iff.mp (Option.mem_toList.mp ho)
    obtain ⟨args, r, rfl⟩ := hTemplate s hs
    exact ⟨args, none, rfl⟩

theorem eq_sum_of_name {hasWeather : Bool} {function : Function}
    (hFunction : function ∈ Registry.builtin hasWeather) (hName : function.name = "Sum") :
    function = Functions.sum := by
  simp only [Registry.builtin, List.mem_cons, List.not_mem_nil, or_false] at hFunction
  rcases hFunction with rfl | rfl | rfl | rfl | rfl | rfl | rfl | rfl
  case inr.inl => rfl
  all_goals exact absurd hName (by decide +revert)

theorem offers_sum : Functions.sum.offers ps =
    (if 2 ≤ ps.countP Functions.isNumberBelow then [call "Sum" [] (some 1)] else []) ++
      [template "Sum" []] :=
  rfl

/-- Of all functions only `Sum` suggests `Sum()` with a rank, and it does where two parameters are
numbers right below the scope. -/
theorem ranked_sum_iff (hasWeather : Bool) :
    (∃ o ∈ distinct ((Registry.builtin hasWeather).flatMap (·.offers ps)),
      o.expression = "\x7bSum()\x7d" ∧ o.rank.isSome) ↔ 2 ≤ ps.countP Functions.isNumberBelow := by
  have hText : (call "Sum" [] none).expression = "\x7bSum()\x7d" := by decide +kernel
  constructor
  · rintro ⟨o, ho, hExpression, hRank⟩
    obtain ⟨function, hFunction, ho⟩ := List.mem_flatMap.mp (mem_of_mem_distinct ho)
    have hNames : ∀ f ∈ Registry.builtin hasWeather, '(' ∉ f.name.toList := by
      cases hasWeather <;> decide
    have hSum : function = Functions.sum := by
      obtain ⟨args, r, rfl⟩ := exists_call_of_mem_offers hFunction ho
      exact eq_sum_of_name hFunction (name_eq_of_expression_eq (hNames function hFunction)
        (by decide) (hExpression.trans hText.symm))
    rw [hSum, offers_sum, List.mem_append, List.mem_singleton] at ho
    rcases ho with ho | rfl
    · by_contra hFew
      rw [if_neg hFew] at ho
      cases ho
    · cases hRank
  · intro hTwo
    have hFirst : (Registry.builtin hasWeather).flatMap (·.offers ps) = call "Sum" [] (some 1) ::
        (template "Sum" [] :: ((Registry.builtin hasWeather).drop 2).flatMap (·.offers ps)) := by
      rw [Registry.builtin, List.flatMap_cons, List.flatMap_cons, offers_sum, if_pos hTwo]
      rfl
    rw [hFirst, distinct]
    exact ⟨_, List.mem_cons_self, hText, rfl⟩

end Suggestion

namespace ScopeTree

variable {t : ScopeTree} {bounds : SearchBounds} {x : ScopeId}

/-- `Sum()` is among the suggestions for a scope, and not as a last resort. -/
def SuggestsSum (t : ScopeTree) (hasWeather : Bool) (bounds : SearchBounds) (x : ScopeId) : Prop :=
  ∃ o ∈ t.suggestions (.builtin hasWeather) bounds x,
    o.expression = "\x7bSum()\x7d" ∧ o.rank.isSome

/-- Two of the elements that are counted suffice, if they are different. -/
theorem two_le_countP {α : Type} {p : α → Bool} {as : List α} {a b : α} (ha : a ∈ as) (hb : b ∈ as)
    (hpa : p a) (hpb : p b) (hne : a ≠ b) : 2 ≤ as.countP p := by
  have hNodup : [a, b].Nodup := by simpa using hne
  rw [List.countP_eq_length_filter]
  refine (hNodup.subperm ?_).length_le
  simp [ha, hb, hpa, hpb]

/-- `Sum()` is suggested where two nodes have a number right below the scope. -/
theorem suggestsSum_iff {hasWeather : Bool} :
    t.SuggestsSum hasWeather bounds x ↔
      1 ≤ bounds.maxSubtreeDepth ∧ ∃ m n, m ≠ n ∧ t.NumberBelow x m ∧ t.NumberBelow x n := by
  have hRanked : t.SuggestsSum hasWeather bounds x ↔
      2 ≤ (t.parameters bounds x).countP Functions.isNumberBelow := by
    rw [← Suggestion.ranked_sum_iff hasWeather, SuggestsSum, suggestions]
    simp only [List.mem_mergeSort]
  rw [hRanked]
  constructor
  · intro hTwo
    have hNodup := (nodup_parameters t bounds x).sublist
      (List.filter_sublist (p := Functions.isNumberBelow).map Parameter.node)
    rw [List.countP_eq_length_filter] at hTwo
    have hNumbers : ∀ q ∈ (t.parameters bounds x).filter Functions.isNumberBelow,
        1 ≤ bounds.maxSubtreeDepth ∧ t.NumberBelow x q.node := by
      intro q hq
      obtain ⟨hq, hNumber⟩ := List.mem_filter.mp hq
      exact exists_numberBelow_iff.mp ⟨q, hq, rfl, hNumber⟩
    match (t.parameters bounds x).filter Functions.isNumberBelow, hTwo, hNodup, hNumbers with
    | p :: q :: _, _, hNodup, hNumbers =>
      have hp := hNumbers p List.mem_cons_self
      have hq := hNumbers q (List.mem_cons_of_mem p List.mem_cons_self)
      refine ⟨hp.1, p.node, q.node, fun hEq => ?_, hp.2, hq.2⟩
      exact (List.nodup_cons.mp hNodup).1 (hEq ▸ List.mem_cons_self)
  · rintro ⟨hDepth, m, n, hne, hm, hn⟩
    obtain ⟨p, hp, rfl, hpNumber⟩ := exists_numberBelow_iff.mpr ⟨hDepth, hm⟩
    obtain ⟨q, hq, rfl, hqNumber⟩ := exists_numberBelow_iff.mpr ⟨hDepth, hn⟩
    exact two_le_countP hp hq hpNumber hqNumber (fun hEq => hne (congrArg Parameter.node hEq))

/-- A number right below a scope is that of a child or that of a scope that is referred to. -/
theorem NumberBelow.exists_scope {n : NodeId} (h : t.NumberBelow x n) :
    ∃ y, (y ∈ t.children x ∨ ∃ e ∈ t.transcluded x, e.2 = y) ∧ t.node? y = some n ∧
      t.valueType? y = some .number := by
  obtain ⟨-, y, hy, hNumber⟩ := h
  have hSource : t.IsSource n y := by simpa using List.find?_some hy
  exact ⟨y, (List.mem_append.mp (List.mem_of_find?_eq_some hy)).imp_right List.mem_map.mp, hSource.1,
    hNumber⟩

/-- `Sum()` is suggested for a scope exactly where two nodes have a number right below it, among what
it refers to as well. It has two children that are numbers, as `Sum()` should, if what it refers to
adds no number of its own: each number there is a number among the children too. -/
theorem two_numbers_below_of_suggestsSum (t : ScopeTree) (hasWeather : Bool) (bounds : SearchBounds)
    (x : ScopeId) :
    (t.SuggestsSum hasWeather bounds x ↔
      1 ≤ bounds.maxSubtreeDepth ∧ ∃ m n, m ≠ n ∧ t.NumberBelow x m ∧ t.NumberBelow x n) ∧
    (t.SuggestsSum hasWeather bounds x →
      (∀ e ∈ t.transcluded x, t.valueType? e.2 = some .number →
        ∃ c ∈ t.children x, t.node? c = t.node? e.2 ∧ t.valueType? c = some .number) →
      2 ≤ (t.children x).countP fun c => t.valueType? c = some .number) := by
  refine ⟨suggestsSum_iff, fun hSuggests hReferences => ?_⟩
  have hChild : ∀ n, t.NumberBelow x n →
      ∃ c ∈ t.children x, t.node? c = some n ∧ t.valueType? c = some .number := by
    intro n hn
    obtain ⟨y, hChild | ⟨e, he, rfl⟩, hNode, hNumber⟩ := hn.exists_scope
    · exact ⟨y, hChild, hNode, hNumber⟩
    · obtain ⟨c, hc, hSame, hNumber⟩ := hReferences e he hNumber
      exact ⟨c, hc, hSame.trans hNode, hNumber⟩
  obtain ⟨-, m, n, hne, hm, hn⟩ := suggestsSum_iff.mp hSuggests
  obtain ⟨c, hc, hcNode, hcNumber⟩ := hChild m hm
  obtain ⟨d, hd, hdNode, hdNumber⟩ := hChild n hn
  refine two_le_countP hc hd (decide_eq_true hcNumber) (decide_eq_true hdNumber) ?_
  rintro rfl
  exact hne (Option.some.inj (hcNode.symm.trans hdNode))

/-- A bullet with two numbers below it that refers to one of them. -/
def basketOutline : String := "- [s] \x7b#[a]\x7d\n  - [a] 1\n  - [b] 2\n"

def basket : Document :=
  ⟨"root", [⟨"root", "", ["s"]⟩, ⟨"s", "\x7b#[a]\x7d", ["a", "b"]⟩, ⟨"a", "1", []⟩, ⟨"b", "2", []⟩], 0⟩

/-- The number that the bullet refers to stands below it anyway. -/
theorem two_numbers_below_of_suggestsSum_basket :
    Document.ofOutline .start basketOutline.toList = .ok (basket, .start) ∧
      ∃ t, t = build basket ∧ t.SuggestsSum true ⟨8, 16, 4⟩ ⟨1, 0⟩ ∧
        (t.transcluded ⟨1, 0⟩).map Prod.fst = ["a"] ∧
        2 ≤ (t.children ⟨1, 0⟩).countP fun c => t.valueType? c = some .number := by
  refine ⟨by cbv, _, rfl, ?_⟩
  obtain ⟨hIff, hTwo⟩ := two_numbers_below_of_suggestsSum (build basket) true ⟨8, 16, 4⟩ ⟨1, 0⟩
  have hSuggests : (build basket).SuggestsSum true ⟨8, 16, 4⟩ ⟨1, 0⟩ :=
    hIff.mpr ⟨by decide, "a", "b", by decide, by decide +kernel, by decide +kernel⟩
  exact ⟨hSuggests, by decide +kernel, hTwo hSuggests (by decide +kernel)⟩

/-- Two numbers, and a bullet that refers to both of them. -/
def pricesOutline : String := "- [s] \x7b#[a]\x7d \x7b#[b]\x7d\n- [a] 1\n- [b] 2\n"

def prices : Document :=
  ⟨"root", [⟨"root", "", ["s", "a", "b"]⟩, ⟨"s", "\x7b#[a]\x7d \x7b#[b]\x7d", []⟩, ⟨"a", "1", []⟩,
    ⟨"b", "2", []⟩], 0⟩

/-- `Sum()` is suggested for the bullet that refers to two numbers, and it has no children to add. -/
theorem suggestsSum_references :
    Document.ofOutline .start pricesOutline.toList = .ok (prices, .start) ∧
      ∃ t, t = build prices ∧ t.SuggestsSum true ⟨8, 16, 4⟩ ⟨1, 0⟩ ∧ t.children ⟨1, 0⟩ = [] ∧
        ¬ 2 ≤ (t.children ⟨1, 0⟩).countP fun c => t.valueType? c = some .number := by
  refine ⟨by cbv, _, rfl, suggestsSum_iff.mpr ⟨by decide, "a", "b", by decide, ?_, ?_⟩, ?_, ?_⟩ <;>
    decide +kernel

end ScopeTree

end FormulaOutline
