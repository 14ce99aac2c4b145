import FormulaOutline.Document.Outline
import FormulaOutline.Function.Builtin
import FormulaOutline.Proofs.Pattern.Rebuilt
import FormulaOutline.Proofs.Session.Operations

/-!
# Repeating a formula twice

After a formula has been repeated and the tree has been rebuilt and evaluated, repeating the formula
again adds nothing, as long as no value that the new formulas have is of a type that the pattern looks
for, and all other values keep their types.

* `ScopeTree.EvaluatesTo`: evaluation changes how far the evaluation of scopes has come.
* `Learned.site_natural`: the example stands at its natural place, and so does its anchor.
* `Example.course`, `Example.again`: the first and the second repetition of an example.
* `repeatFormula_again`: the second repetition adds nothing.
* `repeatFormula_not_idempotent`: an outline in which it adds a formula, because the first one has a
  value of the anchor's type.
-/

namespace FormulaOutline

open Relation Formula Document ScopeTree

/-! ## Evaluated trees -/

/-- A tree has come from another one by evaluation alone. -/
structure ScopeTree.EvaluatesTo (t t' : ScopeTree) : Prop where
  shape : t.SameShape t'
  rooted : t'.Rooted

theorem Session.kept_evaluatesTo (t : ScopeTree) : Session.Kept t.EvaluatesTo where
  start := by
    intro s id force h
    refine ⟨?_, kept_rooted.start s id force h.rooted⟩
    rcases start_cases s id force with hSame | ⟨r, -, -, -, hStart⟩
    · rw [hSame]
      exact h.shape
    · rw [hStart]
      exact h.shape.trans (sameShape_modify _ _ fun _ => rfl)
  complete := by
    intro s run values h
    refine ⟨?_, kept_rooted.complete s run values h.rooted⟩
    rcases complete_cases s run values with ⟨-, hSame⟩ | ⟨-, hTree, -⟩
    · rw [hSame]
      exact h.shape
    · rw [hTree]
      exact h.shape.trans (sameShape_modify _ _ fun _ => rfl)
  publish := by
    intro s run target name data h
    refine ⟨?_, kept_rooted.publish s run target name data h.rooted⟩
    rcases publish_cases s run target name data with ⟨-, hSame⟩ | ⟨result, -, hTree, -⟩
    · rw [hSame]
      exact h.shape
    · rw [hTree]
      exact h.shape.trans (sameShape_modify _ _ fun _ => rfl)

/-- Running all evaluations does no more to a tree. -/
theorem Session.evaluatesTo_settle {s : Session} (h : s.tree.Rooted) (id : ScopeId) :
    s.tree.EvaluatesTo (s.startAll id).settle.tree :=
  (kept_evaluatesTo s.tree).settle ((kept_evaluatesTo s.tree).startAll ⟨.refl _, h⟩ id)

/-! ## Nodes and their scopes -/

/-- The scope that a tree finds for a node, if there is one, is at the node's natural place. -/
def ScopeTree.FindsNatural (t : ScopeTree) (n : NodeId) : Prop :=
  ∀ x, t.scopeForNode? n = some x → t.Natural x

/-- The text of a node refers to another one. -/
def Document.Refers (d : Document) (x y : NodeId) : Prop :=
  ∃ n, d.node? x = some n ∧ y ∈ (bulletOrLiteral n.value.toList).referencedIds

variable {t t' : ScopeTree} {d d' : Document} {x y site beside : ScopeId} {n f : NodeId}
  {functions : Registry} {p : Pattern} {args : List (Argument Expr)} {place : Nat}

theorem exists_scopeForNode? (hRooted : t.Rooted) (hx : t.Natural x) (hn : t.node? x = some n) :
    ∃ y, t.scopeForNode? n = some y := by
  obtain ⟨r, hr⟩ := hRooted.live_of_natural hx
  have hFlag := hRooted.isTransclusion_of_natural hx
  rw [ScopeTree.node?, hr, Option.map_some, Option.some.injEq] at hn
  have hMem := Arena.mem_entries_iff.mpr hr
  rw [isTransclusion_of_mem hMem] at hFlag
  rw [scopeForNode?_eq_find, ← Option.isSome_iff_exists, Option.isSome_map, List.find?_isSome]
  exact ⟨(x, r), hMem, by simpa using ⟨hFlag, hn⟩⟩

theorem ScopeTree.Mirrors.exists_natural (h : t.Mirrors d) (hn : ReflTransGen d.HasChild d.root n) :
    ∃ x, t.Natural x ∧ t.node? x = some n := by
  induction hn with
  | refl => exact ⟨t.root, .refl, h.root⟩
  | tail _ hChild ih =>
    obtain ⟨x, hx, hNode⟩ := ih
    obtain ⟨m, hm, hMem⟩ := hChild
    have hMap := h.map_children hx hNode hm
    have hSome := hMap ▸ List.mem_map_of_mem (f := some) hMem
    obtain ⟨y, hy, hEq⟩ := List.mem_map.mp hSome
    exact ⟨y, hx.child hy, hEq⟩

/-! ## Examples -/

theorem mem_argumentReferences {arg : Argument Expr} (hArg : arg ∈ args) (hn : n ∈ arg.target?) :
    n ∈ Expr.argumentReferences args := by
  induction args with
  | nil => cases hArg
  | cons a rest ih =>
    rw [Expr.argumentReferences, List.mem_append]
    rcases List.mem_cons.mp hArg with rfl | hArg
    · refine Or.inl ?_
      rw [Argument.target?] at hn
      split at hn
      · rename_i hValue
        cases hn
        rw [hValue, Expr.references]
        exact List.mem_singleton_self _
      · cases hn
    · exact Or.inr (ih hArg)

theorem mem_referencedIds {b : Bullet} {s : Span} {g : String} {arg : Argument Expr}
    (hCall : b.singleCall? = some (.call s g args)) (hArg : arg ∈ args) (hn : n ∈ arg.target?) :
    n ∈ b.referencedIds := by
  obtain ⟨span, hMem⟩ := exists_mem_parts_of_singleCall? hCall
  rw [Bullet.referencedIds, List.mem_eraseDups, List.mem_flatMap]
  exact ⟨_, hMem, mem_argumentReferences hArg hn⟩

namespace Learned

variable (h : Learned t functions site p args place beside)
include h

/-- The call of an example is that of its node. -/
theorem exists_node (hQuoted : Blueprint.Quoted d.IsBullet t.arena) (hf : t.node? site = some f) :
    ∃ m s, d.node? f = some m ∧
      (bulletOrLiteral m.value.toList).singleCall? = some (.call s p.function args) := by
  obtain ⟨s, hCall⟩ := h.call
  obtain ⟨r, hr, hCall⟩ := Option.bind_eq_some_iff.mp hCall
  rw [ScopeTree.node?, hr, Option.map_some, Option.some.injEq] at hf
  rcases hQuoted site r hr with hNone | ⟨m, hm, hBullet⟩
  · rw [hNone] at hCall
    cases hCall
  · exact ⟨m, s, hf ▸ hm, hBullet ▸ hCall⟩

theorem refers (hQuoted : Blueprint.Quoted d.IsBullet t.arena) (hf : t.node? site = some f)
    {arg : Argument Expr} (hArg : arg ∈ args) (hn : n ∈ arg.target?) : d.Refers f n := by
  obtain ⟨m, s, hm, hCall⟩ := h.exists_node hQuoted hf
  exact ⟨m, hm, mem_referencedIds hCall hArg hn⟩

/-- The anchor of an example stands at its natural place. -/
theorem beside_natural (hQuoted : Blueprint.Quoted d.IsBullet t.arena) (hf : t.node? site = some f)
    (hFound : ∀ n, d.Refers f n → t.FindsNatural n) : t.Natural beside := by
  obtain ⟨arg, hArg, hAnchor⟩ := h.exists_argument
  obtain ⟨⟨n, hn, hScope⟩, -⟩ := anchor?_eq_some_iff.mp hAnchor
  exact hFound n (h.refers hQuoted hf (List.mem_of_getElem? hArg) hn) beside hScope

/-- An example stands beside its anchor. -/
theorem placed (hRooted : t.Rooted) (hFlag : t.isTransclusion site = false) :
    t.Placed beside site p.anchor.placement := by
  obtain ⟨arg, hArg, hAnchor⟩ := h.exists_argument
  obtain ⟨-, -, -, hPlacement⟩ := anchor?_eq_some_iff.mp hAnchor
  exact (placement?_eq_some_iff hRooted hFlag).mp hPlacement

omit h in
/-- An example from which a pattern can be learned stands at its natural place, or is a reference to
its node. -/
theorem site_natural {s : ScopeId}
    (h : Learned t functions (Pattern.siteOf t s f) p args place beside) (hRooted : t.Rooted)
    (hQuoted : Blueprint.Quoted d.IsBullet t.arena) (hNode : t.node? s = some f)
    (hPlace : ∃ x, t.Natural x ∧ t.node? x = some f)
    (hFound : ∀ n, n = f ∨ d.Refers f n → t.FindsNatural n) :
    t.node? (Pattern.siteOf t s f) = some f ∧ t.Natural (Pattern.siteOf t s f) := by
  rw [Pattern.siteOf] at h ⊢
  split at h
  · rename_i hFlag
    obtain ⟨x, hx, hf⟩ := hPlace
    obtain ⟨y, hy⟩ := exists_scopeForNode? hRooted hx hf
    rw [if_pos hFlag, hy, Option.getD_some]
    exact ⟨(node?_of_scopeForNode? hy).1, hFound f (Or.inl rfl) y hy⟩
  · rename_i hFlag
    rw [if_neg hFlag]
    refine ⟨hNode, ?_⟩
    have hBeside := h.beside_natural hQuoted hNode fun n hn => hFound n (Or.inr hn)
    exact natural_of_placed hRooted hBeside (h.placed hRooted (by simpa using hFlag))

end Learned

/-- An example of a pattern stands at its natural place in the tree of a document, and so does its
anchor. -/
structure Example (d : Document) (t : ScopeTree) (functions : Registry) (p : Pattern) (f a : NodeId)
    (site beside : ScopeId) : Prop where
  mirrors : t.Mirrors d
  natural : t.Natural site
  naturalAnchor : t.Natural beside
  node : t.node? site = some f
  anchor : t.node? beside = some a
  learnedFrom : p.learnedFrom = f
  learned : ∃ args place, Learned t functions site p args place beside ∧
    (∀ arg ∈ args, ∀ n ∈ arg.target?, d.Refers f n) ∧
    ∃ m s, d.node? f = some m ∧
      (bulletOrLiteral m.value.toList).singleCall? = some (.call s p.function args) ∧
      (Expr.call s p.function args).Printable

namespace Example

variable {a : NodeId} {supply : IdSupply} {final : Pattern.Progress}
  (h : Example d t functions p f a site beside)
include h

theorem placed : t.Placed beside site p.anchor.placement := by
  obtain ⟨args, place, hLearned, -⟩ := h.learned
  exact hLearned.placed h.mirrors.rooted (h.mirrors.rooted.isTransclusion_of_natural h.natural)

theorem isSite (hd : d.Tidy)
    (hIds : ∀ n, ReflTransGen d.HasChild d.root n → isTranscludable n = true)
    (hx : x ∈ p.sites t) : IsSite p t d a f x := by
  obtain ⟨args, place, hLearned, -, m, s, hm, hCall, hPrintable⟩ := h.learned
  obtain ⟨hMem, hSite⟩ := List.mem_filter.mp hx
  simp only [Bool.and_eq_true, Bool.not_eq_true'] at hSite
  have hNatural := h.mirrors.rooted.mem_below_iff.mp hMem
  obtain ⟨n, hn⟩ := h.mirrors.node_of_natural hNatural
  refine ⟨?_, fun formula hFormula => ?_, fun hAnchor => ?_⟩
  · rcases h.mirrors.reads hNatural hn with ⟨-, hPlaceholder, -⟩ | ⟨k, hk, -⟩
    · rw [hSite.1.1] at hPlaceholder
      cases hPlaceholder
    · exact ⟨n, k, hn, hk⟩
  · refine (hLearned.writable h.mirrors.rooted hPrintable).synthesize (fun rule k hFound => ?_) hFormula
    obtain ⟨y, hy, hNode⟩ := exists_of_findNode? h.mirrors.rooted hNatural hFound
    exact hIds k (h.mirrors.reached_of_natural hy hNode)
  · obtain rfl := h.mirrors.natural_unique hd.forest hNatural h.naturalAnchor (hAnchor.trans h.anchor.symm)
    obtain ⟨shape, hShape⟩ : ∃ shape, CallShape.of? (.call s p.function args) = some shape := ⟨_, rfl⟩
    refine ⟨m, _, shape, hm, hLearned.synthesize h.mirrors.rooted, ?_, ?_,
      CallShape.beq_self_of_printable hPrintable hShape⟩
    · rw [CallShape.of?_withoutSpans]
      exact hShape
    · rw [CallShape.ofText?, hCall, Option.bind_some, hShape]

/-- After the pattern has been applied no site needs a formula, and the example still stands beside
its anchor. -/
theorem course (hd : d.Tidy) (hFresh : supply.IsFresh d)
    (hIds : ∀ n, ReflTransGen d.HasChild d.root n → isTranscludable n = true)
    (hApply : p.apply t d supply = .ok final) :
    Course d supply a f p.anchor.placement final ∧
      ∀ x ∈ p.sites t, p.plan? t final.document x = none := by
  have hBeside := beside_of_placed h.mirrors h.natural h.naturalAnchor h.node h.anchor h.placed
  obtain ⟨hCourse, -, hPlans⟩ := Course.run hFresh (fun x hx => h.isSite hd hIds hx)
    ⟨.refl hd, Nat.le_refl _, by simp, hBeside⟩ hApply
  exact ⟨hCourse, hPlans⟩

end Example

theorem repeatFormula_eq_ok {supply : IdSupply} {s : ScopeId} {final : Pattern.Progress}
    (h : repeatFormula t functions s d supply = .ok final) :
    ∃ p, Pattern.learn t functions s = .ok p ∧ p.apply t d supply = .ok final := by
  rw [repeatFormula] at h
  cases hLearn : Pattern.learn t functions s with
  | error cause =>
    rw [hLearn] at h
    cases h
  | ok p =>
    simp only [hLearn, Except.mapError, bind, Except.bind] at h
    cases hApply : p.apply t d supply with
    | error cause =>
      rw [hApply] at h
      cases h
    | ok progress =>
      rw [hApply] at h
      cases h
      exact ⟨p, rfl, hApply⟩

/-! ## The second repetition -/

variable {added : List NodeId} {e : ScopeId → ScopeId} {a : NodeId}

theorem foundAlike_of_embeds (h : t.Mirrors d) (h' : t'.Mirrors d') (hd' : d'.IsForest)
    (hEmbeds : Embeds t t' e (t'.avoids added)) (hNew : n ∉ added) (hFound : t.FindsNatural n)
    (hFound' : t'.FindsNatural n) : FoundAlike t t' e n := by
  refine ⟨hFound, ?_⟩
  cases hScope : t.scopeForNode? n with
  | some y =>
    have hy := hFound y hScope
    have hNode := (hEmbeds.node? y hy).trans (node?_of_scopeForNode? hScope).1
    obtain ⟨z, hz⟩ := exists_scopeForNode? h'.rooted (hEmbeds.natural hy) hNode
    obtain rfl := h'.natural_unique hd' (hFound' z hz) (hEmbeds.natural hy)
      ((node?_of_scopeForNode? hz).1.trans hNode.symm)
    exact hz
  | none =>
    cases hScope' : t'.scopeForNode? n with
    | none => rfl
    | some z =>
      have hNode := (node?_of_scopeForNode? hScope').1
      obtain ⟨x, hx, rfl⟩ := hEmbeds.onto z (hFound' z hScope') (by simpa [avoids, hNode] using hNew)
      obtain ⟨y, hy⟩ := exists_scopeForNode? h.rooted hx ((hEmbeds.node? x hx).symm.trans hNode)
      rw [hScope] at hy
      cases hy

/-- In a larger tree the pattern of the example is the same and adds nothing. -/
theorem Example.again (h : Example d t functions p f a site beside) (h' : t'.Mirrors d')
    (hd : d.Tidy) (hd' : d'.IsForest) (hEmbeds : Embeds t t' e (t'.avoids added))
    (hUnread : Unread t' (t'.avoids added) p.types)
    (hFound : ∀ n, n = f ∨ d.Refers f n → FoundAlike t t' e n)
    (hBeside : d'.Beside a f p.anchor.placement) (hPlans : ∀ x ∈ p.sites t, p.plan? t d' x = none) :
    ∃ s', t'.scopeForNode? f = some s' ∧
      ∀ next, repeatFormula t' functions s' d' next = .ok ⟨d', next, []⟩ := by
  obtain ⟨args, place, hLearned, hRefers, -⟩ := h.learned
  have hNode' : t'.node? (e site) = some f := (hEmbeds.node? site h.natural).trans h.node
  have hScope : t.scopeForNode? f = some site := by
    obtain ⟨y, hy⟩ := exists_scopeForNode? h.mirrors.rooted h.natural h.node
    rw [hy, h.mirrors.natural_unique hd.forest ((hFound f (Or.inl rfl)).natural y hy) h.natural
      ((node?_of_scopeForNode? hy).1.trans h.node.symm)]
  have hScope' : t'.scopeForNode? f = some (e site) := by
    rw [(hFound f (Or.inl rfl)).same, hScope, Option.map_some]
  have hPlaced := placed_of_beside h' hd' hEmbeds h.natural h.naturalAnchor h.node h.anchor h.placed
    hBeside
  have hLearned' := hEmbeds.learned hUnread (fun arg hArg n hn => hFound n
    (Or.inr (hRefers arg hArg n hn))) h.natural hLearned hPlaced
  have hLearn : Pattern.learn t' functions (e site) = .ok p := by
    have hSite : Pattern.siteOf t' (e site) f = e site := by
      rw [Pattern.siteOf, (node?_of_scopeForNode? hScope').2]
      rfl
    refine learn_eq_ok_iff.mpr ⟨?_, args, place, e beside, ?_⟩
    · rw [hNode', h.learnedFrom]
      rfl
    · rwa [hNode', Option.getD_some, hSite]
  have hPlans' : ∀ y ∈ p.sites t', p.plan? t' d' y = none := by
    intro y hy
    obtain ⟨hMem, hSite⟩ := List.mem_filter.mp hy
    have hNatural := h'.rooted.mem_below_iff.mp hMem
    have hOld : t'.avoids added y = true := by
      by_contra hNew
      simp only [Bool.and_eq_true, beq_iff_eq] at hSite
      exact hUnread y hNatural (by simpa using hNew) _ List.mem_cons_self hSite.1.2
    obtain ⟨x, hx, rfl⟩ := hEmbeds.onto y hNatural hOld
    rw [hEmbeds.placeholder x hx, hEmbeds.valueType? x hx, hEmbeds.node? x hx] at hSite
    have hPlan := hPlans x (List.mem_filter.mpr ⟨h.mirrors.rooted.mem_below_iff.mpr hx, hSite⟩)
    rw [Pattern.plan?, hEmbeds.synthesize hUnread hx, hEmbeds.node? x hx]
    exact hPlan
  refine ⟨e site, hScope', fun next => ?_⟩
  rw [repeatFormula, hLearn]
  simp only [Except.mapError, bind, Except.bind, apply_eq_of_plans hPlans']

/-- Between two trees old nodes keep the types of their values, and no node that was inserted has a
value of a type that a pattern looks for. -/
structure Undisturbed (p : Pattern) (t t' : ScopeTree) (insertions : List Insertion) : Prop where
  kept : ∀ x y, t.Natural x → t'.Natural y → t'.node? y = t.node? x →
    t'.valueType? y = t.valueType? x
  unread : ∀ i ∈ insertions, ∀ y, t'.Natural y → t'.node? y = some i.node → ∀ type ∈ p.types,
    t'.valueType? y ≠ some type

variable {supply later : IdSupply} {s : ScopeId} {insertions : List Insertion}

/-- A formula is repeated in the evaluated tree of a document, and the tree is rebuilt and evaluated
again. Then repeating the formula adds nothing. -/
theorem repeatFormula_again (hd : d.Tidy) (hFresh : supply.IsFresh d)
    (hIds : ∀ n, ReflTransGen d.HasChild d.root n → isTranscludable n = true)
    (ht : (build d).EvaluatesTo t) (hNode : t.node? s = some f)
    (hPlace : ReflTransGen d.HasChild d.root f)
    (hPrintable : ∀ m call, d.node? f = some m →
      (bulletOrLiteral m.value.toList).singleCall? = some call → call.Printable)
    (hFound : ∀ n, n = f ∨ d.Refers f n → t.FindsNatural n)
    (hRepeat : repeatFormula t functions s d supply = .ok ⟨d', later, insertions⟩) :
    ∃ p top gone fresh, Pattern.learn t functions s = .ok p ∧
      t.rebuild t.root d' = .ok (top, gone, fresh) ∧
      ∀ t', fresh.EvaluatesTo t' → (∀ n, n = f ∨ d.Refers f n → t'.FindsNatural n) →
        Undisturbed p t t' insertions → ∃ s', t'.scopeForNode? f = some s' ∧
          ∀ next, repeatFormula t' functions s' d' next = .ok ⟨d', next, []⟩ := by
  have hMirrors := (mirrors_build hd.forest).of_sameShape ht.shape ht.rooted.sound
  have hQuoted := ht.shape.quoted (quoted_build d)
  obtain ⟨p, hLearn, hApply⟩ := repeatFormula_eq_ok hRepeat
  -- The example and its anchor.
  obtain ⟨hLearnedFrom, args, place, beside, hLearned⟩ := learn_eq_ok_iff.mp hLearn
  rw [hNode, Option.getD_some] at hLearnedFrom hLearned
  obtain ⟨hSite, hNatural⟩ := hLearned.site_natural hMirrors.rooted hQuoted hNode
    (hMirrors.exists_natural hPlace) hFound
  have hBeside := hLearned.beside_natural hQuoted hSite fun n hn => hFound n (Or.inr hn)
  obtain ⟨a, ha⟩ := hMirrors.node_of_natural hBeside
  obtain ⟨m, span, hm, hCall⟩ := hLearned.exists_node hQuoted hSite
  have hExample : Example d t functions p f a _ beside :=
    ⟨hMirrors, hNatural, hBeside, hSite, ha, hLearnedFrom, args, place, hLearned,
      fun arg hArg n hn => hLearned.refers hQuoted hSite hArg hn, m, span, hm, hCall,
      hPrintable m _ hm hCall⟩
  obtain ⟨hCourse, hPlans⟩ := hExample.course hd hFresh hIds hApply
  -- The tree of the larger document.
  obtain ⟨r, hr⟩ := hMirrors.rooted.live_of_natural .refl
  obtain ⟨top, gone, fresh, hRebuild⟩ := exists_rebuild hr d'
  refine ⟨p, top, gone, fresh, hLearn, hRebuild, fun t' ht' hFound' hUndisturbed => ?_⟩
  have hMirrors' := (mirrors_rebuild hMirrors hCourse.grows.root hCourse.grows.tidy.forest
    hRebuild).of_sameShape ht'.shape ht'.rooted.sound
  have hNew : ∀ n, (n = d.root ∨ n = f ∨ d.Refers f n) → n ∉ insertions.map Insertion.node := by
    intro n hn hMem
    obtain ⟨i, hi, rfl⟩ := List.mem_map.mp hMem
    obtain ⟨k, hk, -, hName⟩ := hCourse.named i hi
    obtain ⟨hNotRoot, hNone, hLeads⟩ := hFresh k hk
    rw [← hName] at hNotRoot hNone hLeads
    rcases hn with hn | hn | ⟨m', hm', hn⟩
    · exact hNotRoot hn
    · rw [hn, hm] at hNone
      cases hNone
    · exact hLeads f ⟨m', hm', Or.inr hn⟩
  have hEmbeds := embeds_of_grows hMirrors hMirrors' hCourse.grows hd (hNew _ (Or.inl rfl))
    hUndisturbed.kept
  refine hExample.again hMirrors' hd hCourse.grows.tidy.forest hEmbeds ?_ ?_ hCourse.beside hPlans
  · intro y hy hAdded
    obtain ⟨n, hn⟩ := hMirrors'.node_of_natural hy
    have hMem : n ∈ insertions.map Insertion.node := by simpa [avoids, hn] using hAdded
    obtain ⟨i, hi, rfl⟩ := List.mem_map.mp hMem
    exact hUndisturbed.unread i hi y hy hn
  · exact fun n hn => foundAlike_of_embeds hMirrors hMirrors' hCourse.grows.tidy.forest hEmbeds
      (hNew n (Or.inr hn)) (hFound n hn) (hFound' n hn)

/-! ## Two outlines -/

/-- The tree after the evaluation of all its scopes with the built-in functions. -/
def Session.evaluated (t : ScopeTree) : ScopeTree :=
  ((ofTree t (.builtin false) .default .empty).startAll t.root).settle.tree

theorem Session.evaluatesTo_evaluated (h : t.Rooted) : t.EvaluatesTo (evaluated t) :=
  evaluatesTo_settle (s := ofTree t (.builtin false) .default .empty) h t.root

/-- The tree after its root has been rebuilt. -/
def ScopeTree.rebuilt (t : ScopeTree) (d : Document) : ScopeTree :=
  match t.rebuild t.root d with
  | .ok (_, _, fresh) => fresh
  | .error _ => t

theorem ScopeTree.rebuilt_eq {top : ScopeId} {gone : List ScopeId} {fresh : ScopeTree}
    (h : t.rebuild t.root d = .ok (top, gone, fresh)) : t.rebuilt d = fresh := by
  rw [rebuilt, h]

/-- The bullet of a text without formulas. -/
def plainBullet (text : String) : Bullet :=
  ⟨none, [.string ⟨0, text.length, 1, 1⟩ text], ⟨0, text.length, 1, 1⟩⟩

theorem mem_of_reached (h : ReflTransGen d.HasChild d.root n) :
    n ∈ d.root :: d.nodes.flatMap Node.children := by
  cases h with
  | refl => exact List.mem_cons_self
  | tail _ hChild =>
    obtain ⟨m, hm, hMem⟩ := hChild
    exact List.mem_cons_of_mem _ (List.mem_flatMap.mpr ⟨m, List.mem_of_find?_eq_some hm, hMem⟩)

/-- Three dates, and the days between the first two of them. -/
def datesOutline : String :=
  "- [a] 2024-01-01\n- [f] \x7bDays(#[a], #[b])\x7d\n- [b] 2024-01-09\n- [c] 2024-02-09\n"

def dates : Document :=
  ⟨"root", [⟨"root", "", ["a", "f", "b", "c"]⟩, ⟨"a", "2024-01-01", []⟩,
    ⟨"f", "\x7bDays(#[a], #[b])\x7d", []⟩, ⟨"b", "2024-01-09", []⟩, ⟨"c", "2024-02-09", []⟩], 0⟩

def datesBlueprint : Blueprint :=
  .scope "root" ⟨none, [], ⟨0, 0, 1, 1⟩⟩
    [.scope "a" (plainBullet "2024-01-01") [] [],
      .scope "f"
        ⟨none, [.inline ⟨0, 18, 1, 1⟩ (.call ⟨1, 17, 1, 2⟩ "Days"
          [⟨none, .reference ⟨6, 10, 1, 7⟩ "a", ⟨6, 10, 1, 7⟩⟩,
            ⟨none, .reference ⟨12, 16, 1, 13⟩ "b", ⟨12, 16, 1, 13⟩⟩])], ⟨0, 18, 1, 1⟩⟩ []
        [.scope "a" (plainBullet "2024-01-01") [] [], .scope "b" (plainBullet "2024-01-09") [] []],
      .scope "b" (plainBullet "2024-01-09") [] [],
      .scope "c" (plainBullet "2024-02-09") [] []] []

def datesAfter : Document :=
  ⟨"root", [⟨"root", "", ["a", "f", "b", IdSupply.nameOf 1, "c"]⟩, ⟨"a", "2024-01-01", []⟩,
    ⟨"f", "\x7bDays(#[a], #[b])\x7d", []⟩, ⟨"b", "2024-01-09", []⟩, ⟨"c", "2024-02-09", []⟩,
    ⟨IdSupply.nameOf 1, "\x7bDays(#[b], #[c])\x7d", []⟩], 2⟩

theorem build_dates : build dates = planted datesBlueprint := build_eq (by cbv)

def datesTree : ScopeTree := Session.evaluated (build dates)

def datesTree' : ScopeTree := Session.evaluated (datesTree.rebuilt datesAfter)

/-- The repetition, and what its pattern looks for; then the types of values before and after it. -/
theorem datesTree_spec :
    repeatFormula datesTree (.builtin false) ⟨2, 0⟩ dates .start =
        .ok ⟨datesAfter, ⟨1⟩,
          [⟨IdSupply.nameOf 1, "root", 3, "\x7bDays(#[b], #[c])\x7d", "b"⟩]⟩ ∧
      (Pattern.learn datesTree (.builtin false) ⟨2, 0⟩).map Pattern.types = .ok [.date, .date] ∧
      (∀ n ∈ ["f", "a", "b"],
        (∀ x ∈ datesTree.scopeForNode? n, x ∈ datesTree.below false datesTree.root) ∧
          ∀ x ∈ datesTree'.scopeForNode? n, x ∈ datesTree'.below false datesTree'.root) ∧
      (∀ x ∈ datesTree.below false datesTree.root, ∀ y ∈ datesTree'.below false datesTree'.root,
        datesTree'.node? y = datesTree.node? x →
          datesTree'.valueType? y = datesTree.valueType? x) ∧
      ∀ y ∈ datesTree'.below false datesTree'.root,
        datesTree'.node? y = some (IdSupply.nameOf 1) → datesTree'.valueType? y = some .number := by
  rw [datesTree', datesTree, build_dates]
  decide +kernel

/-- Days between dates are added where there are none, and once only. -/
theorem repeatFormula_again_dates :
    ofOutline .start datesOutline.toList = .ok (dates, .start) ∧
      repeatFormula datesTree (.builtin false) ⟨2, 0⟩ dates .start =
        .ok ⟨datesAfter, ⟨1⟩,
          [⟨IdSupply.nameOf 1, "root", 3, "\x7bDays(#[b], #[c])\x7d", "b"⟩]⟩ ∧
      ∃ top gone fresh, datesTree.rebuild datesTree.root datesAfter = .ok (top, gone, fresh) ∧
        ∃ s, (Session.evaluated fresh).scopeForNode? "f" = some s ∧
          ∀ next, repeatFormula (Session.evaluated fresh) (.builtin false) s datesAfter next =
            .ok ⟨datesAfter, next, []⟩ := by
  have hOutline : ofOutline .start datesOutline.toList = .ok (dates, .start) := by cbv
  obtain ⟨hRepeat, hTypes, hFound, hKept, hNew⟩ := datesTree_spec
  have hd : dates.Tidy := ⟨by decide, isForest_ofOutline hOutline⟩
  have ht : (build dates).EvaluatesTo datesTree := Session.evaluatesTo_evaluated (rooted_build dates)
  have hNames : ∀ n, n = "f" ∨ dates.Refers "f" n → n ∈ ["f", "a", "b"] := by
    rintro n (rfl | ⟨m, hm, hMem⟩)
    · simp
    · obtain rfl : m = ⟨"f", "\x7bDays(#[a], #[b])\x7d", []⟩ := Option.some.inj hm.symm
      have hIds : (bulletOrLiteral "\x7bDays(#[a], #[b])\x7d".toList).referencedIds = ["a", "b"] := by
        cbv
      rw [hIds] at hMem
      exact List.mem_cons_of_mem _ hMem
  have hPrintable : ∀ m call, dates.node? "f" = some m →
      (bulletOrLiteral m.value.toList).singleCall? = some call → call.Printable := by
    intro m call hm hCall
    obtain rfl : m = ⟨"f", "\x7bDays(#[a], #[b])\x7d", []⟩ := Option.some.inj hm.symm
    have hRead : (bulletOrLiteral "\x7bDays(#[a], #[b])\x7d".toList).singleCall? =
        some (.call ⟨1, 17, 1, 2⟩ "Days" [⟨none, .reference ⟨6, 10, 1, 7⟩ "a", ⟨6, 10, 1, 7⟩⟩,
          ⟨none, .reference ⟨12, 16, 1, 13⟩ "b", ⟨12, 16, 1, 13⟩⟩]) := by
      cbv
    obtain rfl := Option.some.inj (hRead.symm.trans hCall)
    refine .call (by decide) (by simp) (by simp [Argument.isMissing, Expr.isUndefined]) ?_
    intro arg hArg _
    simp only [List.mem_cons, List.not_mem_nil, or_false] at hArg
    rcases hArg with rfl | rfl
    · exact .reference (by decide)
    · exact .reference (by decide)
  obtain ⟨p, top, gone, fresh, hLearn, hRebuild, hAgain⟩ := repeatFormula_again hd
    (IdSupply.isFresh_of_length (by decide +kernel)) (fun n hn => (by decide : ∀ n ∈
      dates.root :: dates.nodes.flatMap Node.children, isTranscludable n = true) n (mem_of_reached hn))
    ht (by rw [datesTree, build_dates]; decide +kernel) (.single ⟨_, rfl, by decide⟩) hPrintable
    (fun n hn x hx => ht.rooted.mem_below_iff.mp ((hFound n (hNames n hn)).1 x hx)) hRepeat
  have hRebuilt : Session.evaluated fresh = datesTree' := by
    rw [datesTree', rebuilt_eq hRebuild]
  have ht' : fresh.EvaluatesTo (Session.evaluated fresh) :=
    Session.evaluatesTo_evaluated (ht.rooted.rebuild hRebuild)
  refine ⟨hOutline, hRepeat, top, gone, fresh, hRebuild, hAgain _ ht' ?_ ⟨?_, ?_⟩⟩
  · intro n hn x hx
    rw [hRebuilt] at hx
    exact ht'.rooted.mem_below_iff.mp (hRebuilt ▸ (hFound n (hNames n hn)).2 x hx)
  · intro x y hx hy hNode
    rw [← ht.rooted.mem_below_iff] at hx
    rw [← ht'.rooted.mem_below_iff] at hy
    rw [hRebuilt] at hy hNode ⊢
    exact hKept x hx y hy hNode
  · intro i hi y hy hNode type hType hSame
    rw [← ht'.rooted.mem_below_iff] at hy
    obtain rfl := List.mem_singleton.mp hi
    rw [hRebuilt] at hy hNode hSame
    rw [hNew y hy hNode, Option.some.injEq] at hSame
    rw [hLearn] at hTypes
    obtain rfl : type = .date := by
      rw [show p.types = [.date, .date] from Except.ok.inj hTypes] at hType
      simpa using hType
    cases hSame

/-- Two numbers, and the sum of the first one alone. -/
def numbersOutline : String := "- [a] 1\n- [f] \x7bSum(#[a])\x7d\n- [b] 2\n"

def numbers : Document :=
  ⟨"root", [⟨"root", "", ["a", "f", "b"]⟩, ⟨"a", "1", []⟩, ⟨"f", "\x7bSum(#[a])\x7d", []⟩,
    ⟨"b", "2", []⟩], 0⟩

def numbersBlueprint : Blueprint :=
  .scope "root" ⟨none, [], ⟨0, 0, 1, 1⟩⟩
    [.scope "a" (plainBullet "1") [] [],
      .scope "f"
        ⟨none, [.inline ⟨0, 11, 1, 1⟩ (.call ⟨1, 10, 1, 2⟩ "Sum"
          [⟨none, .reference ⟨5, 9, 1, 6⟩ "a", ⟨5, 9, 1, 6⟩⟩])], ⟨0, 11, 1, 1⟩⟩ []
        [.scope "a" (plainBullet "1") [] []],
      .scope "b" (plainBullet "2") [] []] []

def numbersAfter : Document :=
  ⟨"root", [⟨"root", "", ["a", "f", "b", IdSupply.nameOf 1]⟩, ⟨"a", "1", []⟩,
    ⟨"f", "\x7bSum(#[a])\x7d", []⟩, ⟨"b", "2", []⟩,
    ⟨IdSupply.nameOf 1, "\x7bSum(#[b])\x7d", []⟩], 2⟩

theorem build_numbers : build numbers = planted numbersBlueprint := build_eq (by cbv)

theorem numbersTree_spec :
    repeatFormula (Session.evaluated (build numbers)) (.builtin false) ⟨2, 0⟩ numbers .start =
        .ok ⟨numbersAfter, ⟨1⟩, [⟨IdSupply.nameOf 1, "root", 3, "\x7bSum(#[b])\x7d", "b"⟩]⟩ ∧
      (Session.evaluated ((Session.evaluated (build numbers)).rebuilt numbersAfter)).scopeForNode?
        "f" = some ⟨2, 1⟩ ∧
      (repeatFormula (Session.evaluated ((Session.evaluated (build numbers)).rebuilt numbersAfter))
          (.builtin false) ⟨2, 1⟩ numbersAfter ⟨1⟩).map Pattern.Progress.insertions =
        .ok [⟨IdSupply.nameOf 2, "root", 4,
          "\x7bSum(#[00000000-0000-7000-8000-000000000001])\x7d", IdSupply.nameOf 1⟩] := by
  rw [build_numbers]
  decide +kernel

/-- The first repetition adds the sum of the second number. That sum is a number too, so the second
repetition adds a sum of it. -/
theorem repeatFormula_not_idempotent :
    ofOutline .start numbersOutline.toList = .ok (numbers, .start) ∧
      repeatFormula (Session.evaluated (build numbers)) (.builtin false) ⟨2, 0⟩ numbers .start =
        .ok ⟨numbersAfter, ⟨1⟩, [⟨IdSupply.nameOf 1, "root", 3, "\x7bSum(#[b])\x7d", "b"⟩]⟩ ∧
      ∃ top gone fresh, (Session.evaluated (build numbers)).rebuild
          (Session.evaluated (build numbers)).root numbersAfter = .ok (top, gone, fresh) ∧
        ∃ s, (Session.evaluated fresh).scopeForNode? "f" = some s ∧
          (repeatFormula (Session.evaluated fresh) (.builtin false) s numbersAfter ⟨1⟩).map
              Pattern.Progress.insertions =
            .ok [⟨IdSupply.nameOf 2, "root", 4,
              "\x7bSum(#[00000000-0000-7000-8000-000000000001])\x7d", IdSupply.nameOf 1⟩] := by
  have hRooted := (Session.evaluatesTo_evaluated (rooted_build numbers)).rooted
  obtain ⟨r, hr⟩ := hRooted.live_of_natural .refl
  obtain ⟨top, gone, fresh, hRebuild⟩ := exists_rebuild hr numbersAfter
  obtain ⟨hFirst, hFound, hSecond⟩ := numbersTree_spec
  rw [rebuilt_eq hRebuild] at hFound hSecond
  exact ⟨by cbv, hFirst, top, gone, fresh, hRebuild, _, hFound, hSecond⟩

end FormulaOutline
