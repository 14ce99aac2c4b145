import FormulaOutline.Proofs.Document.Growth
import FormulaOutline.Proofs.Pattern.Texts

/-!
# What applying a pattern does to a document

A pattern adds leaves to a document. Afterwards there is a formula at every site that has a place for
one, and the example still stands beside its anchor, where nothing is added because the formula that
belongs there is the example.

* `hasEquivalent_iff`: a child that is a call of the same shape.
* `plan?_eq_none_of_insert`: a site needs no formula after its formula has been added.
* `Document.Beside`: a node stands right beside or below another one.
* `Supplied`: formulas have been added under ids that were unused.
* `Fillable.applyAt`: one scope, which needs no formula afterwards.
* `run_of_applyAt`: all scopes, one after the other.
* `Course`: a document in the course of the application.
* `Course.applyAt`, `Course.run`: the example stays in its place.
-/

namespace FormulaOutline

open Formula Document

variable {d d' : Document} {added : List NodeId} {p : Pattern} {t : ScopeTree} {x : ScopeId}
  {a f id node parent : NodeId} {placement : Placement} {formula : Expr}

/-! ## Equivalent formulas -/

theorem hasEquivalent_iff : Pattern.hasEquivalent d parent formula = true ↔
    ∃ wanted c m found, CallShape.of? formula = some wanted ∧ d.HasChild parent c ∧
      d.node? c = some m ∧ CallShape.ofText? m.value = some found ∧ (found == wanted) = true := by
  rw [Pattern.hasEquivalent]
  cases hWanted : CallShape.of? formula with
  | none => simp
  | some wanted =>
    cases hn : d.node? parent with
    | none => simp [HasChild, hn]
    | some n =>
      simp only [List.any_eq_true, Option.any_eq_true, HasChild, hn]
      constructor
      · rintro ⟨c, hc, m, hm, found, hFound, hSame⟩
        exact ⟨wanted, c, m, found, rfl, ⟨n, rfl, hc⟩, hm, hFound, hSame⟩
      · rintro ⟨_, c, m, found, ⟨⟩, ⟨_, ⟨⟩, hc⟩, hm, hFound, hSame⟩
        exact ⟨c, hc, m, hm, found, hFound, hSame⟩

theorem hasEquivalent_of_grows (h : d.Grows d' added)
    (hEquivalent : Pattern.hasEquivalent d parent formula = true) :
    Pattern.hasEquivalent d' parent formula = true := by
  obtain ⟨wanted, c, m, found, hWanted, hChild, hm, hFound, hSame⟩ := hasEquivalent_iff.mp hEquivalent
  obtain ⟨m', hm', hValue, -⟩ := h.node?_old hm
  exact hasEquivalent_iff.mpr ⟨wanted, c, m', found, hWanted,
    (h.hasChild_iff (h.not_added hm)).mpr hChild, hm', hValue ▸ hFound, hSame⟩

/-! ## Places -/

/-- A place beside a node is one among the children of its parent. -/
theorem beside_eq_some_iff {offset index : Nat} :
    Pattern.slot?.beside d node offset = some (parent, index) ↔ ∃ m s r, d.parent? node = some parent ∧
      d.node? parent = some m ∧ m.children = s ++ node :: r ∧ node ∉ s ∧ index = s.length + offset := by
  rw [Pattern.slot?.beside]
  constructor
  · intro h
    obtain ⟨q, hq, h⟩ := Option.bind_eq_some_iff.mp h
    obtain ⟨m, hm, h⟩ := Option.bind_eq_some_iff.mp h
    obtain ⟨i, hi, h⟩ := Option.bind_eq_some_iff.mp h
    cases h
    obtain ⟨hlt, hHere, hBefore⟩ := List.findIdx?_eq_some_iff_getElem.mp hi
    refine ⟨m, m.children.take i, m.children.drop (i + 1), hq, hm, ?_, ?_, ?_⟩
    · rw [← beq_iff_eq.mp hHere, ← List.drop_eq_getElem_cons hlt, List.take_append_drop]
    · intro hMem
      obtain ⟨k, hk, hEq⟩ := List.mem_take_iff_getElem.mp hMem
      have hLess : k < i := by omega
      exact hBefore k hLess (by simpa using hEq)
    · rw [List.length_take, Nat.min_eq_left (by omega)]
  · rintro ⟨m, s, r, hq, hm, hc, hs, rfl⟩
    have hIndex : m.children.findIdx? (· == node) = some s.length := by
      have hNone : s.findIdx? (· == node) = none := by
        rw [List.findIdx?_eq_none_iff]
        intro y hy
        rw [beq_eq_false_iff_ne]
        rintro rfl
        exact hs hy
      simp [hc, List.findIdx?_append, hNone, List.findIdx?_cons]
    simp [hq, hm, hIndex]

/-- A formula goes below a node itself or below its parent. -/
def Document.Hosts (d : Document) (placement : Placement) (node parent : NodeId) : Prop :=
  match placement with
  | .child => parent = node
  | .above => d.HasChild parent node
  | .below => d.HasChild parent node

theorem Document.Hosts.exists_node {n : Node} (h : d.Hosts placement node parent)
    (hn : d.node? node = some n) : ∃ m, d.node? parent = some m := by
  cases placement with
  | child => exact ⟨n, h ▸ hn⟩
  | above =>
    obtain ⟨m, hm, -⟩ := h
    exact ⟨m, hm⟩
  | below =>
    obtain ⟨m, hm, -⟩ := h
    exact ⟨m, hm⟩

theorem exists_slot?_iff (hd : d.Tidy) {n : Node} (hn : d.node? node = some n) :
    (∃ index, Pattern.slot? d placement node = some (parent, index)) ↔
      d.Hosts placement node parent := by
  have hBeside : ∀ offset, (∃ index, Pattern.slot?.beside d node offset = some (parent, index)) ↔
      d.HasChild parent node := by
    intro offset
    constructor
    · rintro ⟨index, h⟩
      obtain ⟨m, s, r, hq, -⟩ := beside_eq_some_iff.mp h
      exact hd.parent?_eq_some_iff.mp hq
    · rintro ⟨m, hm, hc⟩
      obtain ⟨s, r, hSplit⟩ := List.append_of_mem hc
      have hNodup := hd.forest.nodup parent m hm
      rw [hSplit, List.nodup_append] at hNodup
      exact ⟨_, beside_eq_some_iff.mpr ⟨m, s, r, hd.parent?_eq_some_iff.mpr ⟨m, hm, hc⟩, hm, hSplit,
        fun hMem => hNodup.2.2 node hMem node List.mem_cons_self rfl, rfl⟩⟩
  cases placement with
  | child => simp [Pattern.slot?, hn, Hosts, eq_comm]
  | above => exact hBeside 0
  | below => exact hBeside 1

/-- A site needs no formula if it has none, or no place for one, or one that is there. -/
theorem plan?_eq_none_iff (hd : d.Tidy) {n : Node} (hNode : t.node? x = some node)
    (hn : d.node? node = some n) : p.plan? t d x = none ↔
      ∀ formula parent, p.synthesize t x = some formula → d.Hosts p.anchor.placement node parent →
        Pattern.hasEquivalent d parent formula = true := by
  rw [Pattern.plan?, hNode]
  simp only [bind, Option.bind_some]
  cases hFormula : p.synthesize t x with
  | none => simp
  | some formula =>
    simp only [Option.bind_some, Option.some.injEq]
    simp only [← exists_slot?_iff hd hn]
    cases hSlot : Pattern.slot? d p.anchor.placement node with
    | none => simp
    | some place =>
      obtain ⟨parent, index⟩ := place
      simp

theorem hosts_of_grows (h : d.Grows d' added) {n : Node} (hn : d.node? node = some n) :
    d'.Hosts placement node parent ↔ d.Hosts placement node parent := by
  cases placement with
  | child => rfl
  | above => exact h.hasChild_iff (h.not_added hn)
  | below => exact h.hasChild_iff (h.not_added hn)

/-- A site that needs no formula needs none later. -/
theorem plan?_eq_none_of_grows (hd : d.Tidy) (h : d.Grows d' added) {n : Node}
    (hNode : t.node? x = some node) (hn : d.node? node = some n) (hNone : p.plan? t d x = none) :
    p.plan? t d' x = none := by
  obtain ⟨n', hn', -⟩ := h.node?_old hn
  rw [plan?_eq_none_iff hd hNode hn] at hNone
  rw [plan?_eq_none_iff h.tidy hNode hn']
  intro formula parent hFormula hHosts
  exact hasEquivalent_of_grows h (hNone formula parent hFormula ((hosts_of_grows h hn).mp hHosts))

/-! ## The example -/

/-- A node stands right beside or below another one. -/
def Document.Beside (d : Document) (a f : NodeId) : Placement → Prop
  | .child => d.HasChild a f
  | .above => ∃ p n, d.node? p = some n ∧ [f, a] <:+: n.children
  | .below => ∃ p n, d.node? p = some n ∧ [a, f] <:+: n.children

theorem Document.Beside.exists_host (h : d.Beside a f placement) :
    ∃ parent, d.Hosts placement a parent ∧ d.HasChild parent f := by
  cases placement with
  | child => exact ⟨a, rfl, h⟩
  | above =>
    obtain ⟨q, n, hn, hInfix⟩ := h
    exact ⟨q, ⟨n, hn, hInfix.subset (by simp)⟩, ⟨n, hn, hInfix.subset (by simp)⟩⟩
  | below =>
    obtain ⟨q, n, hn, hInfix⟩ := h
    exact ⟨q, ⟨n, hn, hInfix.subset (by simp)⟩, ⟨n, hn, hInfix.subset (by simp)⟩⟩

theorem hosts_unique (hd : d.IsForest) {parent' : NodeId} (h : d.Hosts placement node parent)
    (h' : d.Hosts placement node parent') : parent = parent' := by
  cases placement with
  | child => exact h.trans h'.symm
  | above => exact hd.parent_unique _ _ _ h h'
  | below => exact hd.parent_unique _ _ _ h h'

/-- The example is the formula that belongs to its anchor. -/
theorem plan?_eq_none_of_beside (hd : d.Tidy) {n m : Node} {shape : CallShape}
    (hNode : t.node? x = some a) (hn : d.node? a = some n) (hm : d.node? f = some m)
    (hFormula : p.synthesize t x = some formula) (hShape : CallShape.of? formula = some shape)
    (hText : CallShape.ofText? m.value = some shape) (hSelf : (shape == shape) = true)
    (hBeside : d.Beside a f p.anchor.placement) : p.plan? t d x = none := by
  rw [plan?_eq_none_iff hd hNode hn]
  intro formula' parent hFormula' hHosts
  obtain rfl := Option.some.inj (hFormula.symm.trans hFormula')
  obtain ⟨q, hq, hChild⟩ := hBeside.exists_host
  obtain rfl := hosts_unique hd.forest hHosts hq
  exact hasEquivalent_iff.mpr ⟨shape, f, m, shape, hShape, hChild, hm, hText, hSelf⟩

/-- After its formula has been added a site needs none. -/
theorem plan?_eq_none_of_insert (hd : d.Tidy) {n m : Node} {index : Nat}
    (hNode : t.node? x = some node) (hn : d.node? node = some n)
    (hFormula : p.synthesize t x = some formula) (hPrintable : formula.Printable)
    (hCall : formula.isCall = true)
    (hSlot : Pattern.slot? d p.anchor.placement node = some (parent, index))
    (hGrows : d.Grows d' [id]) (hm : d'.node? id = some m)
    (hText : m.value = (Expr.inline .none formula).pretty)
    (hChildren : ∀ x n, d.node? x = some n → ∃ n', d'.node? x = some n' ∧ n'.children =
      if x = parent then n.children.take index ++ id :: n.children.drop index else n.children) :
    p.plan? t d' x = none := by
  obtain ⟨n', hn', -⟩ := hGrows.node?_old hn
  have hHost := (exists_slot?_iff hd hn).mp ⟨index, hSlot⟩
  rw [plan?_eq_none_iff hGrows.tidy hNode hn']
  intro formula' parent' hFormula' hHosts
  obtain rfl := Option.some.inj (hFormula.symm.trans hFormula')
  obtain rfl := hosts_unique hd.forest ((hosts_of_grows hGrows hn).mp hHosts) hHost
  have hRead := CallShape.ofText?_inline hPrintable hCall
  obtain ⟨shape, hShape⟩ : ∃ shape, CallShape.of? formula = some shape := by
    cases formula with
    | call s g args => exact ⟨_, rfl⟩
    | _ => cases hCall
  obtain ⟨host, hFound⟩ := hHost.exists_node hn
  obtain ⟨host', hFound', hc⟩ := hChildren parent' host hFound
  rw [if_pos rfl] at hc
  exact hasEquivalent_iff.mpr ⟨shape, _, m, shape, hShape, ⟨host', hFound', hc ▸ by simp⟩, hm,
    by rw [hText, hRead, hShape], CallShape.beq_self_of_printable hPrintable hShape⟩

/-- Two neighbours stay so unless a new member is put between them. -/
theorem infix_insert {s r : List NodeId} {b c : NodeId} (h : [b, c] <:+: s ++ r)
    (hBetween : s.getLast? = some b → r.head? ≠ some c) : [b, c] <:+: s ++ id :: r := by
  obtain ⟨u, v, hEq⟩ := h
  rw [List.append_assoc, List.append_eq_append_iff] at hEq
  rcases hEq with ⟨w, rfl, hw⟩ | ⟨w, rfl, hw⟩
  · match w with
    | [] =>
      rw [List.nil_append] at hw
      exact ⟨u ++ [id], v, by rw [← hw]; simp⟩
    | [b'] =>
      simp only [List.cons_append, List.nil_append, List.cons.injEq] at hw
      obtain ⟨rfl, rfl⟩ := hw
      exact absurd rfl (hBetween (by simp))
    | b' :: c' :: w =>
      simp only [List.cons_append, List.nil_append, List.cons.injEq] at hw
      obtain ⟨rfl, rfl, rfl⟩ := hw
      exact ⟨u, w ++ id :: r, by simp⟩
  · exact ⟨s ++ id :: w, v, by simp [hw]⟩

/-- A formula for another node is not put between the example and its anchor. -/
theorem beside_insert {index : Nat} (hne : node ≠ a)
    (hSlot : Pattern.slot? d placement node = some (parent, index))
    (hChildren : ∀ x n, d.node? x = some n → ∃ n', d'.node? x = some n' ∧ n'.children =
      if x = parent then n.children.take index ++ id :: n.children.drop index else n.children)
    (h : d.Beside a f placement) : d'.Beside a f placement := by
  have hSiblings : ∀ {b c}, (∃ q n, d.node? q = some n ∧ [b, c] <:+: n.children) →
      (∀ m, d.node? parent = some m → ∃ s r, m.children = s ++ r ∧ index = s.length ∧
        (s.getLast? = some b → r.head? ≠ some c)) →
      ∃ q n, d'.node? q = some n ∧ [b, c] <:+: n.children := by
    rintro b c ⟨q, n, hn, hInfix⟩ hSplit
    obtain ⟨n', hn', hc⟩ := hChildren q n hn
    refine ⟨q, n', hn', ?_⟩
    rw [hc]
    split
    · rename_i hq
      obtain ⟨s, r, hsr, rfl, hBetween⟩ := hSplit n (hq ▸ hn)
      rw [hsr, List.take_left, List.drop_left]
      exact infix_insert (hsr ▸ hInfix) hBetween
    · exact hInfix
  cases placement with
  | child =>
    obtain ⟨n, hn, hf⟩ := h
    obtain ⟨n', hn', hc⟩ := hChildren a n hn
    refine ⟨n', hn', ?_⟩
    rw [hc]
    split
    · exact (@mem_withChild _ n _ id).mpr (Or.inr hf)
    · exact hf
  | above =>
    obtain ⟨m, s, r, -, hm, hc, -, rfl⟩ := beside_eq_some_iff.mp hSlot
    refine hSiblings h fun m' hm' => ?_
    obtain rfl := Option.some.inj (hm.symm.trans hm')
    exact ⟨s, node :: r, hc, rfl, fun _ hHead => hne (Option.some.inj hHead)⟩
  | below =>
    obtain ⟨m, s, r, -, hm, hc, -, rfl⟩ := beside_eq_some_iff.mp hSlot
    refine hSiblings h fun m' hm' => ?_
    obtain rfl := Option.some.inj (hm.symm.trans hm')
    refine ⟨s ++ [node], r, by simp [hc], by simp, fun hLast _ => hne ?_⟩
    rw [List.getLast?_append] at hLast
    exact Option.some.inj hLast

/-! ## Ids -/

/-- Formulas have been added to a document, under ids that a supply gave for them. -/
structure Supplied (d : Document) (supply : IdSupply) (progress : Pattern.Progress) : Prop where
  grows : d.Grows progress.document (progress.insertions.map Insertion.node)
  issued : supply.issued ≤ progress.supply.issued
  named : ∀ i ∈ progress.insertions, ∃ k ≤ progress.supply.issued, i.node = IdSupply.nameOf k

variable {supply : IdSupply} {progress final : Pattern.Progress}

/-- The next id is that of no node. -/
theorem Supplied.next_new (h : Supplied d supply progress) (hUnused : supply.IsUnused d) :
    progress.document.node? progress.supply.next.1 = none ∧
      ∀ q, ¬ progress.document.HasChild q progress.supply.next.1 := by
  have hNot : progress.supply.next.1 ∉ progress.insertions.map Insertion.node := by
    intro hMem
    obtain ⟨i, hi, hName⟩ := List.mem_map.mp hMem
    obtain ⟨k, hk, hEq⟩ := h.named i hi
    have := IdSupply.nameOf_injective (hEq.symm.trans hName)
    omega
  obtain ⟨hNone, hChild⟩ := hUnused (progress.supply.issued + 1) (Nat.lt_succ_of_le h.issued)
  refine ⟨?_, fun q hq => hChild q ((h.grows.hasChild_iff hNot).mp hq)⟩
  have hOld := h.grows.old _ hNot
  rw [show d.node? progress.supply.next.1 = none from hNone] at hOld
  exact Option.map_eq_none_iff.mp hOld

/-! ## One scope after the other -/

theorem applyAt_cases (h : p.applyAt t x progress = .ok final) :
    (p.plan? t progress.document x = none ∧ final = progress) ∨
    ∃ formula node parent index, p.plan? t progress.document x = some (formula, node, parent, index) ∧
      (progress.document.createNode progress.supply.next.1 (Expr.inline .none formula).pretty).insertChild
        parent index progress.supply.next.1 = .ok final.document ∧
      final.supply = progress.supply.next.2 ∧
      final.insertions.map Insertion.node =
        progress.insertions.map Insertion.node ++ [progress.supply.next.1] := by
  rw [Pattern.applyAt] at h
  split at h
  · rename_i hNone
    cases h
    exact Or.inl ⟨hNone, rfl⟩
  · rename_i formula node parent index hPlan
    refine Or.inr ⟨formula, node, parent, index, hPlan, ?_⟩
    simp only [bind, Except.bind] at h
    split at h
    · cases h
    · rename_i document hInsert
      cases h
      exact ⟨hInsert, rfl, by simp⟩

theorem plan?_eq_some {index : Nat} (h : p.plan? t d x = some (formula, node, parent, index)) :
    p.synthesize t x = some formula ∧ t.node? x = some node ∧
      Pattern.slot? d p.anchor.placement node = some (parent, index) := by
  obtain ⟨formula', hFormula, h⟩ := Option.bind_eq_some_iff.mp h
  obtain ⟨node', hNode, h⟩ := Option.bind_eq_some_iff.mp h
  obtain ⟨⟨parent', index'⟩, hSlot, h⟩ := Option.bind_eq_some_iff.mp h
  simp only at h
  split at h
  · cases h
  · cases h
    exact ⟨hFormula, hNode, hSlot⟩

/-- A scope of a node of the document, whose formula can be written if it has one. -/
structure Fillable (p : Pattern) (t : ScopeTree) (d : Document) (x : ScopeId) : Prop where
  node : ∃ node n, t.node? x = some node ∧ d.node? node = some n
  printable : ∀ formula, p.synthesize t x = some formula →
    formula.Printable ∧ formula.isCall = true

/-- A scope that is visited needs no formula afterwards. It is left alone, or its formula is added as a
leaf. -/
theorem Fillable.applyAt (hSite : Fillable p t d x) (h : Supplied d supply progress)
    (hUnused : supply.IsUnused d) (hRun : p.applyAt t x progress = .ok final) :
    p.plan? t final.document x = none ∧ (final = progress ∨ ∃ formula node parent index,
      p.plan? t progress.document x = some (formula, node, parent, index) ∧
      progress.document.Grows final.document [progress.supply.next.1] ∧
      final.supply = progress.supply.next.2 ∧
      final.insertions.map Insertion.node =
        progress.insertions.map Insertion.node ++ [progress.supply.next.1] ∧
      ∀ y n, progress.document.node? y = some n → ∃ n', final.document.node? y = some n' ∧
        n'.children = if y = parent then
          n.children.take index ++ progress.supply.next.1 :: n.children.drop index
        else n.children) := by
  obtain ⟨hNone, rfl⟩ | ⟨formula, node, parent, index, hPlan, hInsert, hSupply, hInsertions⟩ :=
    applyAt_cases hRun
  · exact ⟨hNone, .inl rfl⟩
  obtain ⟨hFormula, hNode, hSlot⟩ := plan?_eq_some hPlan
  obtain ⟨node', n, hNode', hn⟩ := hSite.node
  obtain rfl := Option.some.inj (hNode.symm.trans hNode')
  obtain ⟨n', hn', -⟩ := h.grows.node?_old hn
  have hTidy := h.grows.tidy
  obtain ⟨hNew, hChild⟩ := h.next_new hUnused
  obtain ⟨hGrows, ⟨m, hm, hText⟩, hChildren⟩ := hTidy.grows_insert hNew hChild hInsert
  obtain ⟨hPrintable, hCall⟩ := hSite.printable formula hFormula
  refine ⟨?_, .inr ⟨formula, node, parent, index, hPlan, hGrows, hSupply, hInsertions, hChildren⟩⟩
  exact plan?_eq_none_of_insert hTidy hNode hn' hFormula hPrintable hCall hSlot hGrows hm hText
    hChildren

/-- What holds after each visit holds after all of them, and then none of the scopes needs a formula. -/
theorem run_of_applyAt {I : Pattern.Progress → Prop} {sites : List ScopeId}
    (hSites : ∀ x ∈ sites, Fillable p t d x)
    (hGrown : ∀ {progress}, I progress → ∃ added, d.Grows progress.document added)
    (hStep : ∀ x ∈ sites, ∀ {progress final}, I progress → p.applyAt t x progress = .ok final →
      I final ∧ (∃ added, progress.document.Grows final.document added) ∧
        p.plan? t final.document x = none)
    (h : I progress)
    (hRun : sites.foldlM (fun progress x => p.applyAt t x progress) progress = .ok final) :
    I final ∧ (∃ added, progress.document.Grows final.document added) ∧
      ∀ x ∈ sites, p.plan? t final.document x = none := by
  induction sites generalizing progress with
  | nil =>
    cases hRun
    obtain ⟨added, hGrows⟩ := hGrown h
    exact ⟨h, ⟨[], .refl hGrows.tidy⟩, List.forall_mem_nil _⟩
  | cons x rest ih =>
    rw [List.forall_mem_cons] at hSites hStep
    rw [List.foldlM_cons] at hRun
    cases hNext : p.applyAt t x progress with
    | error e =>
      rw [hNext] at hRun
      cases hRun
    | ok next =>
      rw [hNext] at hRun
      obtain ⟨hNow, ⟨added, hGrows⟩, hNone⟩ := hStep.1 h hNext
      obtain ⟨hFinal, ⟨added', hGrows'⟩, hRest⟩ := ih hSites.2 hStep.2 hNow hRun
      refine ⟨hFinal, ⟨_, hGrows.trans hGrows'⟩, List.forall_mem_cons.mpr ⟨?_, hRest⟩⟩
      -- What comes later takes nothing away.
      obtain ⟨node, n, hNode, hn⟩ := hSites.1.node
      obtain ⟨_, hOld⟩ := hGrown hNow
      obtain ⟨n', hn', -⟩ := hOld.node?_old hn
      exact plan?_eq_none_of_grows hOld.tidy hGrows' hNode hn' hNone

theorem Supplied.applyAt (hUnused : supply.IsUnused d) (hSite : Fillable p t d x)
    (h : Supplied d supply progress) (hRun : p.applyAt t x progress = .ok final) :
    Supplied d supply final ∧ (∃ added, progress.document.Grows final.document added) ∧
      p.plan? t final.document x = none := by
  obtain ⟨hNone, rfl | ⟨_, _, _, _, -, hGrows, hSupply, hInsertions, -⟩⟩ :=
    hSite.applyAt h hUnused hRun
  · exact ⟨h, ⟨[], .refl h.grows.tidy⟩, hNone⟩
  refine ⟨⟨?_, ?_, ?_⟩, ⟨_, hGrows⟩, hNone⟩
  · rw [hInsertions]
    exact h.grows.trans hGrows
  · rw [hSupply]
    exact Nat.le_succ_of_le h.issued
  · rw [← List.forall_mem_map (P := fun node => ∃ k ≤ final.supply.issued,
      node = IdSupply.nameOf k), hInsertions, hSupply, List.forall_mem_append,
      List.forall_mem_singleton, List.forall_mem_map]
    refine ⟨fun i hi => ?_, _, Nat.le_refl _, rfl⟩
    obtain ⟨k, hk, hName⟩ := h.named i hi
    exact ⟨k, Nat.le_succ_of_le hk, hName⟩

/-- After all scopes have been visited none of them needs a formula. -/
theorem Supplied.run (hUnused : supply.IsUnused d) {sites : List ScopeId}
    (hSites : ∀ x ∈ sites, Fillable p t d x) (h : Supplied d supply progress)
    (hRun : sites.foldlM (fun progress x => p.applyAt t x progress) progress = .ok final) :
    ∀ x ∈ sites, p.plan? t final.document x = none :=
  (run_of_applyAt (I := Supplied d supply) hSites (fun h => ⟨_, h.grows⟩)
    (fun x hx _ _ h => h.applyAt hUnused (hSites x hx)) h hRun).2.2

/-! ## Sites -/

/-- A document in the course of the application of a pattern: formulas have been added to it under new
ids, and the example still stands beside its anchor. -/
structure Course (d : Document) (supply : IdSupply) (a f : NodeId) (placement : Placement)
    (progress : Pattern.Progress) : Prop where
  grows : d.Grows progress.document (progress.insertions.map Insertion.node)
  issued : supply.issued ≤ progress.supply.issued
  named : ∀ i ∈ progress.insertions, ∃ k, supply.issued < k ∧ k ≤ progress.supply.issued ∧
    i.node = IdSupply.nameOf k
  beside : progress.document.Beside a f placement

theorem Course.supplied (h : Course d supply a f placement progress) :
    Supplied d supply progress where
  grows := h.grows
  issued := h.issued
  named i hi := by
    obtain ⟨k, -, hk, hName⟩ := h.named i hi
    exact ⟨k, hk, hName⟩

/-- What is known of a site before the pattern is applied there. -/
structure IsSite (p : Pattern) (t : ScopeTree) (d : Document) (a f : NodeId) (x : ScopeId) : Prop where
  node : ∃ node n, t.node? x = some node ∧ d.node? node = some n
  printable : ∀ formula, p.synthesize t x = some formula → formula.Printable ∧ formula.isCall = true
  /-- At the anchor of the example the example is the formula that belongs there. -/
  anchor : t.node? x = some a → ∃ m formula shape, d.node? f = some m ∧
    p.synthesize t x = some formula ∧ CallShape.of? formula = some shape ∧
    CallShape.ofText? m.value = some shape ∧ (shape == shape) = true

theorem IsSite.fillable (h : IsSite p t d a f x) : Fillable p t d x := ⟨h.node, h.printable⟩

/-- After a site has been visited it needs no formula, and the example is still in its place. -/
theorem Course.applyAt (hFresh : supply.IsFresh d) (hSite : IsSite p t d a f x)
    (h : Course d supply a f p.anchor.placement progress)
    (hRun : p.applyAt t x progress = .ok final) :
    Course d supply a f p.anchor.placement final ∧
      (∃ added, progress.document.Grows final.document added) ∧
      p.plan? t final.document x = none := by
  obtain ⟨hNone, rfl | ⟨_, node, parent, index, hPlan, hGrows, hSupply, hInsertions, hChildren⟩⟩ :=
    hSite.fillable.applyAt h.supplied hFresh.isUnused hRun
  · exact ⟨h, ⟨[], .refl h.grows.tidy⟩, hNone⟩
  obtain ⟨-, hNode, hSlot⟩ := plan?_eq_some hPlan
  have hne : node ≠ a := by
    rintro rfl
    obtain ⟨m, formula', shape, hm, hFormula', hShape, hText, hSelf⟩ := hSite.anchor hNode
    obtain ⟨m', hm', hValue, -⟩ := h.grows.node?_old hm
    obtain ⟨node', n, hNode', hn⟩ := hSite.node
    obtain rfl := Option.some.inj (hNode.symm.trans hNode')
    obtain ⟨n', hn', -⟩ := h.grows.node?_old hn
    have hNone := plan?_eq_none_of_beside h.grows.tidy hNode hn' hm' hFormula' hShape
      (hValue ▸ hText) hSelf h.beside
    rw [hPlan] at hNone
    cases hNone
  refine ⟨⟨?_, ?_, ?_, beside_insert hne hSlot hChildren h.beside⟩, ⟨_, hGrows⟩, hNone⟩
  · rw [hInsertions]
    exact h.grows.trans hGrows
  · rw [hSupply]
    exact Nat.le_succ_of_le h.issued
  · rw [← List.forall_mem_map (P := fun node => ∃ k, supply.issued < k ∧
      k ≤ final.supply.issued ∧ node = IdSupply.nameOf k), hInsertions, hSupply,
      List.forall_mem_append, List.forall_mem_singleton, List.forall_mem_map]
    refine ⟨fun i hi => ?_, _, Nat.lt_succ_of_le h.issued, Nat.le_refl _, rfl⟩
    obtain ⟨k, hk, hk', hName⟩ := h.named i hi
    exact ⟨k, hk, Nat.le_succ_of_le hk', hName⟩

/-- After all sites have been visited none of them needs a formula. -/
theorem Course.run (hFresh : supply.IsFresh d) {sites : List ScopeId}
    (hSites : ∀ x ∈ sites, IsSite p t d a f x)
    (h : Course d supply a f p.anchor.placement progress)
    (hRun : sites.foldlM (fun progress x => p.applyAt t x progress) progress = .ok final) :
    Course d supply a f p.anchor.placement final ∧
      (∃ added, progress.document.Grows final.document added) ∧
      ∀ x ∈ sites, p.plan? t final.document x = none :=
  run_of_applyAt (I := Course d supply a f p.anchor.placement)
    (fun x hx => (hSites x hx).fillable) (fun h => ⟨_, h.grows⟩)
    (fun x hx _ _ h => h.applyAt hFresh (hSites x hx)) h hRun

/-- Where no site needs a formula, nothing is added. -/
theorem apply_eq_of_plans (h : ∀ x ∈ p.sites t, p.plan? t d x = none) :
    p.apply t d supply = .ok ⟨d, supply, []⟩ := by
  rw [Pattern.apply]
  generalize p.sites t = sites at h
  induction sites with
  | nil => rfl
  | cons x rest ih =>
    rw [List.forall_mem_cons] at h
    rw [List.foldlM_cons, Pattern.applyAt, h.1]
    exact ih h.2

end FormulaOutline
