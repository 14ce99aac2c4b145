import FormulaOutline.Proofs.Pattern.Adding
import FormulaOutline.Proofs.Pattern.Replaying
import FormulaOutline.Proofs.Scope.Preorder

/-!
# A pass of a pattern over a document

A pattern visits the scopes below the root in the order of the outline and adds a leaf wherever one is
missing at that moment. Scopes and their places are those of the old document, while the new one grows
under way.

* `Pattern.Pass`: what is added on the way through a list of scopes.
* `Along.applyAt`: one scope is visited; everything that was added before keeps its place.
* `Along.run`: all scopes are visited.
* `ScopeTree.Mirrors.ahead`: nodes are in the order in which their scopes are visited.
* `apply_pass`: a pattern passes over the whole document, never fails, and adds nothing but leaves
  that can be taken away again.
-/

namespace FormulaOutline

open Formula Document ScopeTree

variable {p : Pattern} {t : ScopeTree} {d d' : Document} {x : ScopeId} {i : Insertion}
  {placement : Placement}

/-- What a pattern adds on its way through a list of scopes. At each scope it sees the document as it
is at that moment, and adds one new leaf or nothing. -/
inductive Pattern.Pass (p : Pattern) (t : ScopeTree) :
    List ScopeId → Document → List Insertion → Document → Prop
  | done (d : Document) : Pass p t [] d [] d
  | keep {x : ScopeId} {rest : List ScopeId} {d d' : Document} {is : List Insertion}
      (hKeep : ∀ i, ¬ p.Adds t d x i) (hRest : Pass p t rest d is d') : Pass p t (x :: rest) d is d'
  | add {x : ScopeId} {rest : List ScopeId} {d next d' : Document} {i : Insertion}
      {is : List Insertion} (hAdd : p.Adds t d x i) (hNew : d.node? i.node = none)
      (hInsert : (d.createNode i.node i.text).insertChild i.parent i.index i.node = .ok next)
      (hRest : Pass p t rest next is d') : Pass p t (x :: rest) d (i :: is) d'

/-! ## On the way -/

/-- A document on the way of a pattern: leaves have been added under new ids beside or below old nodes,
each stands in its reported place, and without them the document is the old one. -/
structure Along (d : Document) (supply : IdSupply) (placement : Placement)
    (progress : Pattern.Progress) : Prop where
  grows : d.Grows progress.document (progress.insertions.map Insertion.node)
  undone : progress.document.without (progress.insertions.map Insertion.node) =
    { d with version := progress.document.version }
  issued : supply.issued ≤ progress.supply.issued
  named : ∀ i ∈ progress.insertions, ∃ k ≤ progress.supply.issued, i.node = IdSupply.nameOf k
  anchored : ∀ i ∈ progress.insertions, ∃ m, d.node? i.anchor = some m
  stands : ∀ i ∈ progress.insertions, i.StandsIn progress.document placement

namespace Along

variable {supply : IdSupply} {progress final : Pattern.Progress}

theorem start (hd : d.Tidy) (supply : IdSupply) (placement : Placement) :
    Along d supply placement ⟨d, supply, []⟩ where
  grows := .refl hd
  undone := d.without_nil
  issued := Nat.le_refl _
  named := by simp
  anchored := by simp
  stands := by simp

theorem supplied (h : Along d supply placement progress) : Supplied d supply progress :=
  ⟨h.grows, h.issued, h.named⟩

/-- A leaf is added behind those that are there. -/
theorem add (h : Along d supply placement progress) (hUnused : supply.IsUnused d)
    (hNode : i.node = progress.supply.next.1) (hAnchor : ∃ m, d.node? i.anchor = some m)
    (hAhead : ∀ e ∈ progress.insertions, d.Ahead e.anchor i.anchor)
    (hSlot : progress.document.HasSlot placement i.anchor i.parent i.index)
    (hInsert : (progress.document.createNode i.node i.text).insertChild i.parent i.index i.node =
      .ok d') :
    Along d supply placement ⟨d', progress.supply.next.2, progress.insertions ++ [i]⟩ := by
  obtain ⟨hNew, hChild⟩ := h.supplied.next_new hUnused
  rw [← hNode] at hNew hChild
  have hTidy := h.grows.tidy
  obtain ⟨m, hm⟩ := hAnchor
  obtain ⟨hGrows, hText, hChildren⟩ := hTidy.grows_insert hNew hChild hInsert
  -- The new leaf is put below an old node.
  have hParent : ∃ m, d.node? i.parent = some m :=
    ((hosts_of_grows h.grows hm).mp hSlot.hosts).exists_node hm
  have hIds : (progress.insertions ++ [i]).map Insertion.node =
      progress.insertions.map Insertion.node ++ [i.node] := by simp
  refine ⟨?_, ?_, ?_, ?_, ?_, ?_⟩
  · rw [hIds]
    exact h.grows.trans hGrows
  · rw [hIds, without_append, hTidy.without_insert hNew hChild hInsert]
    exact congrArg (fun u : Document => { u with version := d'.version }) h.undone
  · exact Nat.le_succ_of_le h.issued
  · intro e he
    rcases List.mem_append.mp he with he | he
    · obtain ⟨k, hk, hName⟩ := h.named e he
      exact ⟨k, Nat.le_succ_of_le hk, hName⟩
    · obtain rfl := List.mem_singleton.mp he
      exact ⟨_, Nat.le_refl _, hNode⟩
  · intro e he
    rcases List.mem_append.mp he with he | he
    · exact h.anchored e he
    · obtain rfl := List.mem_singleton.mp he
      exact ⟨m, hm⟩
  · intro e he
    rcases List.mem_append.mp he with he | he
    · have hStands := h.stands e he
      have hOther : ∀ {n m}, d.node? n = some m → n ≠ e.node := by
        rintro n m hn rfl
        exact h.grows.not_added hn (List.mem_map_of_mem he)
      obtain ⟨m', hm'⟩ := h.anchored e he
      obtain ⟨m'', hm''⟩ := hParent
      exact hStands.insert hGrows hChildren (hOther hm'').symm (hStands.behind hTidy.forest
        (h.grows.ahead hm' hm (hAhead e he)) (hOther hm) hSlot)
    · obtain rfl := List.mem_singleton.mp he
      exact standsIn_of_insert hSlot hGrows hText hChildren

/-- One scope is visited: something is added or nothing is missing. -/
theorem applyAt (h : Along d supply p.anchor.placement progress) (hUnused : supply.IsUnused d)
    (hx : x ∈ p.sites t) (hOld : ∀ n, t.node? x = some n → ∃ m, d.node? n = some m)
    (hAhead : ∀ e ∈ progress.insertions, ∀ n, t.node? x = some n → d.Ahead e.anchor n) :
    (p.applyAt t x progress = .ok progress ∧ ∀ i, ¬ p.Adds t progress.document x i) ∨
      ∃ i next, p.applyAt t x progress = .ok next ∧ Along d supply p.anchor.placement next ∧
        next.insertions = progress.insertions ++ [i] ∧ p.Adds t progress.document x i ∧
        progress.document.node? i.node = none ∧
        (progress.document.createNode i.node i.text).insertChild i.parent i.index i.node =
          .ok next.document := by
  have hTidy := h.grows.tidy
  cases hPlan : p.plan? t progress.document x with
  | none =>
    refine Or.inl ⟨by rw [Pattern.applyAt, hPlan], fun i hAdds => ?_⟩
    obtain ⟨formula, hSome, -⟩ := (adds_iff hTidy hx).mp hAdds
    rw [hPlan] at hSome
    cases hSome
  | some plan =>
    obtain ⟨formula, anchor, parent, index⟩ := plan
    let i : Insertion :=
      ⟨progress.supply.next.1, parent, index, (Expr.inline .none formula).pretty, anchor⟩
    have hAdds : p.Adds t progress.document x i := (adds_iff hTidy hx).mpr ⟨formula, hPlan, rfl⟩
    obtain ⟨m, hm⟩ := hOld anchor hAdds.node
    have hNew := (h.supplied.next_new hUnused).1
    obtain ⟨m', hm', -⟩ := h.grows.node?_old hm
    obtain ⟨document, hInsert⟩ := hTidy.exists_insert hNew (hAdds.slot.hosts.exists_node hm')
      i.text i.index
    refine Or.inr ⟨i, ⟨document, progress.supply.next.2, progress.insertions ++ [i]⟩, ?_, ?_, rfl, hAdds,
      hNew, hInsert⟩
    · rw [Pattern.applyAt, hPlan]
      simp only [bind, Except.bind]
      rw [show (progress.document.createNode progress.supply.next.1
        (Expr.inline .none formula).pretty).insertChild parent index progress.supply.next.1 =
          .ok document from hInsert]
    · exact h.add hUnused rfl ⟨m, hm⟩ (fun e he => hAhead e he anchor hAdds.node) hAdds.slot hInsert

/-- All sites are visited. What is added at one of them is behind what was added before. -/
theorem run (hUnused : supply.IsUnused d) {sites : List ScopeId}
    (h : Along d supply p.anchor.placement progress) (hSites : ∀ x ∈ sites, x ∈ p.sites t)
    (hOld : ∀ x ∈ sites, ∀ n, t.node? x = some n → ∃ m, d.node? n = some m)
    (hOrder : sites.Pairwise fun x y => ∀ a n, t.node? x = some a → t.node? y = some n → d.Ahead a n)
    (hAhead : ∀ e ∈ progress.insertions, ∀ x ∈ sites, ∀ n, t.node? x = some n →
      d.Ahead e.anchor n) :
    ∃ final is, sites.foldlM (fun progress x => p.applyAt t x progress) progress = .ok final ∧
      Along d supply p.anchor.placement final ∧ final.insertions = progress.insertions ++ is ∧
      p.Pass t sites progress.document is final.document := by
  induction sites generalizing progress with
  | nil => exact ⟨progress, [], rfl, h, by rw [List.append_nil], .done _⟩
  | cons x rest ih =>
    rw [List.forall_mem_cons] at hSites hOld
    rw [List.pairwise_cons] at hOrder
    rw [List.foldlM_cons]
    rcases h.applyAt hUnused hSites.1 hOld.1 fun e he => hAhead e he x List.mem_cons_self with
      ⟨hStep, hKeep⟩ | ⟨i, next, hStep, hNext, hInsertions, hAdds, hNew, hInsert⟩
    · obtain ⟨final, is, hRun, hFinal, hAll, hPass⟩ := ih h hSites.2 hOld.2 hOrder.2
        fun e he y hy => hAhead e he y (List.mem_cons_of_mem x hy)
      rw [hStep]
      exact ⟨final, is, hRun, hFinal, hAll, .keep hKeep hPass⟩
    · have hBehind : ∀ e ∈ next.insertions, ∀ y ∈ rest, ∀ n, t.node? y = some n →
          d.Ahead e.anchor n := by
        intro e he y hy n hn
        rw [hInsertions] at he
        rcases List.mem_append.mp he with he | he
        · exact hAhead e he y (List.mem_cons_of_mem x hy) n hn
        · obtain rfl := List.mem_singleton.mp he
          exact hOrder.1 y hy _ n hAdds.node hn
      obtain ⟨final, is, hRun, hFinal, hAll, hPass⟩ := ih hNext hSites.2 hOld.2 hOrder.2 hBehind
      rw [hStep]
      refine ⟨final, i :: is, hRun, hFinal, ?_, .add hAdds hNew hInsert hPass⟩
      rw [hAll, hInsertions, List.append_assoc, List.singleton_append]

end Along

/-- Nothing is added at scopes that are left out. -/
theorem Pattern.Pass.of_filter {q : ScopeId → Bool} {l : List ScopeId} {is : List Insertion}
    (hAll : ∀ x ∈ l, ∀ d i, p.Adds t d x i → q x = true) (h : p.Pass t (l.filter q) d is d') :
    p.Pass t l d is d' := by
  induction l generalizing d is with
  | nil => exact h
  | cons x rest ih =>
    rw [List.forall_mem_cons] at hAll
    cases hq : q x with
    | false =>
      rw [List.filter_cons_of_neg (by simp [hq])] at h
      exact .keep (fun i hAdds => by simp [hAll.1 d i hAdds] at hq) (ih hAll.2 h)
    | true =>
      rw [List.filter_cons_of_pos hq] at h
      cases h with
      | keep hKeep hRest => exact .keep hKeep (ih hAll.2 hRest)
      | add hAdd hNew hInsert hRest => exact .add hAdd hNew hInsert (ih hAll.2 hRest)

/-! ## Scopes and nodes in their order -/

namespace ScopeTree.Mirrors

variable {y : ScopeId} {a n q : NodeId} (h : t.Mirrors d) (hd : d.IsForest)
include h hd

/-- The parent of a scope stands for the parent of its node. -/
theorem exists_parent (hx : t.Natural x) (hRoot : x ≠ t.root) (hn : t.node? x = some n)
    (hChild : d.HasChild q n) : ∃ p, t.Natural p ∧ x ∈ t.children p ∧ t.node? p = some q := by
  cases hx with
  | refl => exact (hRoot rfl).elim
  | @tail p _ hp hc =>
    obtain ⟨b, hb⟩ := h.node_of_natural hp
    obtain rfl := hd.parent_unique b q n (h.hasChild_of_mem hp hb hc hn) hChild
    exact ⟨p, hp, hc, hb⟩

theorem not_hasChild_root (hx : t.Natural x) (hq : t.node? x = some q) : ¬ d.HasChild q d.root :=
  fun hChild => hd.acyclic q
    ((Relation.TransGen.single hChild).trans_left (h.reached_of_natural hx hq))

omit hd in
/-- Children stand in the order of their scopes. -/
theorem precedes {p : ScopeId} {s m r : List ScopeId} (hp : t.Natural p) (hq : t.node? p = some q)
    (hSplit : t.children p = s ++ x :: (m ++ y :: r)) (ha : t.node? x = some a)
    (hn : t.node? y = some n) : d.Precedes q a n := by
  obtain ⟨parent, hParent, -⟩ := h.hasChild_of_mem hp hq (hSplit ▸ by simp) ha
  have hChildren : parent.children = (t.children p).filterMap t.node? := by
    have hMap := congrArg (List.filterMap id) (h.map_children hp hq hParent)
    simpa [List.filterMap_map] using hMap.symm
  refine ⟨parent, (s ++ x :: m).filterMap t.node?, r.filterMap t.node?, hParent, ?_, ?_⟩
  · rw [hChildren, hSplit, ← List.filterMap_cons_some hn, ← List.filterMap_append, List.append_assoc,
      List.cons_append]
  · exact List.mem_filterMap.mpr ⟨x, by simp, ha⟩

/-- Nodes are in the order in which their scopes are visited. -/
theorem ahead {before after : List ScopeId} (hBelow : t.below false t.root = before ++ x :: after)
    (hAfter : y ∈ after) (ha : t.node? x = some a) (hn : t.node? y = some n) : d.Ahead a n := by
  have hNatural : ∀ z ∈ before ++ x :: after, t.Natural z :=
    fun z hz => h.rooted.mem_below_iff.mp (hBelow ▸ hz)
  have hx := hNatural x (by simp)
  have hy := hNatural y (by simp [hAfter])
  have hNodup := h.rooted.nodup_below
  have hne : x ≠ y := by
    rintro rfl
    rw [hBelow, List.nodup_append, List.nodup_cons] at hNodup
    exact hNodup.2.1.1 hAfter
  refine ⟨fun hEq => hne (h.natural_unique hd hx hy (by rw [ha, hn, hEq])), fun q hqa hqn => ?_⟩
  -- Neither of them is the root, as the other one would have a parent above it.
  have hRoots : x ≠ t.root ∧ y ≠ t.root := by
    constructor
    · rintro rfl
      obtain ⟨p, hp, -, hq⟩ := h.exists_parent hd hy hne.symm hn hqn
      obtain rfl := Option.some.inj (h.root.symm.trans ha)
      exact h.not_hasChild_root hd hp hq hqa
    · rintro rfl
      obtain ⟨p, hp, -, hq⟩ := h.exists_parent hd hx hne ha hqa
      obtain rfl := Option.some.inj (h.root.symm.trans hn)
      exact h.not_hasChild_root hd hp hq hqn
  obtain ⟨p, hp, hxp, hq⟩ := h.exists_parent hd hx hRoots.1 ha hqa
  obtain ⟨p', hp', hyp, hq'⟩ := h.exists_parent hd hy hRoots.2 hn hqn
  obtain rfl := h.natural_unique hd hp hp' (hq.trans hq'.symm)
  obtain ⟨s, m, r, hSplit⟩ := h.rooted.preorder_below.siblings hNodup (h.rooted.mem_below_iff.mpr hp)
    hxp hyp hBelow hAfter
  exact h.precedes hp hq hSplit ha hn

theorem pairwise_ahead : (t.below false t.root).Pairwise fun x y =>
    ∀ a n, t.node? x = some a → t.node? y = some n → d.Ahead a n := by
  rw [List.pairwise_iff_forall_sublist]
  intro x y hTwo a n ha hn
  obtain ⟨l, r, hBelow, hx, hy⟩ := List.cons_sublist_iff.mp hTwo
  obtain ⟨before, m, rfl⟩ := List.append_of_mem hx
  have hSplit : t.below false t.root = before ++ x :: (m ++ r) := by simp [hBelow]
  exact h.ahead hd hSplit (List.mem_append_right m (List.singleton_sublist.mp hy)) ha hn

end ScopeTree.Mirrors

/-! ## The whole document -/

/-- Trees that have the same links have the same order. -/
theorem ScopeTree.Preorder.of_sameShape {t' : ScopeTree} {pending visited : List ScopeId}
    (h : t.Preorder pending visited) (hShape : t.SameShape t') : t'.Preorder pending visited := by
  induction h with
  | done => exact .done
  | @visit x rest visited _ ih => exact .visit (hShape.children x ▸ ih)

/-- Trees with different values on their scopes have the same links. -/
theorem ScopeTree.sameShape_withStates (t : ScopeTree) (states : ScopeId → EvalState) :
    t.SameShape (t.withStates states) := by
  rw [ScopeTree.withStates]
  generalize t.arena.entries.map Prod.fst = ids
  induction ids generalizing t with
  | nil => exact .refl t
  | cons x ids ih =>
    refine SameShape.trans ?_ (ih _)
    exact sameShape_modify t x fun _ => rfl

/-- A pattern passes over the document that a tree mirrors. -/
theorem ScopeTree.Mirrors.apply {supply : IdSupply} (h : t.Mirrors d) (hd : d.Tidy)
    (hUnused : supply.IsUnused d) (p : Pattern) :
    ∃ final, p.apply t d supply = .ok final ∧ Along d supply p.anchor.placement final ∧
      p.Pass t (t.below false t.root) d final.insertions final.document := by
  have hOld : ∀ x ∈ p.sites t, ∀ n, t.node? x = some n → ∃ m, d.node? n = some m := by
    intro x hx n hn
    obtain ⟨hBelow, hSite⟩ := List.mem_filter.mp hx
    rcases h.reads (h.rooted.mem_below_iff.mp hBelow) hn with ⟨-, hHidden, -⟩ | ⟨m, hm, -⟩
    · simp [hHidden] at hSite
    · exact ⟨m, hm⟩
  obtain ⟨final, is, hRun, hFinal, hAll, hPass⟩ := Along.run hUnused (.start hd supply _)
    (fun _ hx => hx) hOld ((h.pairwise_ahead hd.forest).filter _) (by simp)
  rw [List.nil_append] at hAll
  refine ⟨final, hRun, hFinal, hAll ▸ .of_filter ?_ hPass⟩
  exact fun x hx _ i hAdds => (List.mem_filter.mp (hAdds.mem_sites hx)).2

/-- A pattern passes over the tree that is built from a document, with any values on its scopes. It
never fails, and it adds what is missing at each of the natural scopes, in the order of the outline,
and nothing else. In the end every new leaf stands in its reported place, and without the new leaves
the document is the old one. -/
theorem apply_pass (hd : d.Tidy) (states : ScopeId → EvalState) (p : Pattern) {supply : IdSupply}
    (hUnused : supply.IsUnused d) :
    ∃ final visited, p.apply ((build d).withStates states) d supply = .ok final ∧
      (build d).Preorder [(build d).root] visited ∧ (∀ x, x ∈ visited ↔ (build d).Natural x) ∧
      p.Pass ((build d).withStates states) visited d final.insertions final.document ∧
      (∀ i ∈ final.insertions, i.StandsIn final.document p.anchor.placement) ∧
      final.document.without (final.insertions.map Insertion.node) =
        { d with version := final.document.version } := by
  have hShape := (build d).sameShape_withStates states
  have h := (mirrors_build hd.forest).of_sameShape hShape ((rooted_build d).withStates states).sound
  obtain ⟨final, hApply, hFinal, hPass⟩ := h.apply hd hUnused p
  refine ⟨final, _, hApply, ?_, fun x => ?_, hPass, hFinal.stands, hFinal.undone⟩
  · rw [hShape.root]
    exact h.rooted.preorder_below.of_sameShape hShape.symm
  · rw [h.rooted.mem_below_iff]
    exact ⟨hShape.symm.natural, hShape.natural⟩

/-- Four dates, and the days between the first two of them. -/
def milestonesOutline : String :=
  "- [a] 2024-01-01\n- [f] \x7bDays(#[a], #[b])\x7d\n- [b] 2024-01-09\n- [c] 2024-02-09\n" ++
  "- [e] 2024-03-01\n"

def milestones : Document :=
  ⟨"root", [⟨"root", "", ["a", "f", "b", "c", "e"]⟩, ⟨"a", "2024-01-01", []⟩,
    ⟨"f", "\x7bDays(#[a], #[b])\x7d", []⟩, ⟨"b", "2024-01-09", []⟩, ⟨"c", "2024-02-09", []⟩,
    ⟨"e", "2024-03-01", []⟩], 0⟩

def milestonesBlueprint : Blueprint :=
  let date (node value : String) : Blueprint :=
    .scope node ⟨none, [.string ⟨0, 10, 1, 1⟩ value], ⟨0, 10, 1, 1⟩⟩ [] []
  let a := date "a" "2024-01-01"
  let b := date "b" "2024-01-09"
  let f : Blueprint := .scope "f"
    ⟨none, [.inline ⟨0, 18, 1, 1⟩ (.call ⟨1, 17, 1, 2⟩ "Days"
      [⟨none, .reference ⟨6, 10, 1, 7⟩ "a", ⟨6, 10, 1, 7⟩⟩,
        ⟨none, .reference ⟨12, 16, 1, 13⟩ "b", ⟨12, 16, 1, 13⟩⟩])], ⟨0, 18, 1, 1⟩⟩ [] [a, b]
  .scope "root" ⟨none, [], ⟨0, 0, 1, 1⟩⟩
    [a, f, b, date "c" "2024-02-09", date "e" "2024-03-01"] []

theorem build_milestones : build milestones = planted milestonesBlueprint := build_eq (by cbv)

/-- Values of the scopes below the root. -/
def milestonesStates (x : ScopeId) : EvalState :=
  match x.index with
  | 1 => .resolved [.date ⟨2024, 1, 1, by decide⟩]
  | 5 => .resolved [.date ⟨2024, 1, 9, by decide⟩]
  | 6 => .resolved [.date ⟨2024, 2, 9, by decide⟩]
  | 7 => .resolved [.date ⟨2024, 3, 1, by decide⟩]
  | _ => .idle

def milestonesTree : ScopeTree := (build milestones).withStates milestonesStates

def milestonesPattern : Pattern :=
  ⟨"Days", ⟨"from", .date, .below⟩, [(none, .anchor), (none, .nextSibling .date)], "f"⟩

/-- The days between the second and the third date, and between the third and the last. -/
def milestonesProgress : Pattern.Progress :=
  ⟨⟨"root", [⟨"root", "", ["a", "f", "b", IdSupply.nameOf 1, "c", IdSupply.nameOf 2, "e"]⟩,
      ⟨"a", "2024-01-01", []⟩, ⟨"f", "\x7bDays(#[a], #[b])\x7d", []⟩, ⟨"b", "2024-01-09", []⟩,
      ⟨"c", "2024-02-09", []⟩, ⟨"e", "2024-03-01", []⟩,
      ⟨IdSupply.nameOf 1, "\x7bDays(#[b], #[c])\x7d", []⟩,
      ⟨IdSupply.nameOf 2, "\x7bDays(#[c], #[e])\x7d", []⟩], 4⟩, ⟨2⟩,
    [⟨IdSupply.nameOf 1, "root", 3, "\x7bDays(#[b], #[c])\x7d", "b"⟩,
      ⟨IdSupply.nameOf 2, "root", 5, "\x7bDays(#[c], #[e])\x7d", "c"⟩]⟩

theorem apply_pass_milestones :
    Document.ofOutline .start milestonesOutline.toList = .ok (milestones, .start) ∧
      Pattern.learn milestonesTree (.builtin false) ⟨2, 0⟩ = .ok milestonesPattern ∧
      milestonesPattern.apply milestonesTree milestones .start = .ok milestonesProgress ∧
      (∀ i ∈ milestonesProgress.insertions, i.StandsIn milestonesProgress.document .below) ∧
      milestonesProgress.document.without [IdSupply.nameOf 1, IdSupply.nameOf 2] =
        { milestones with version := 4 } := by
  have hOutline : Document.ofOutline .start milestonesOutline.toList = .ok (milestones, .start) := by
    cbv
  have hLearn : Pattern.learn milestonesTree (.builtin false) ⟨2, 0⟩ = .ok milestonesPattern := by
    rw [milestonesTree, build_milestones]
    cbv
  have hApply : milestonesPattern.apply milestonesTree milestones .start = .ok milestonesProgress := by
    rw [milestonesTree, build_milestones]
    decide +kernel
  have hd : milestones.Tidy := ⟨by decide, isForest_ofOutline hOutline⟩
  have hFresh : IdSupply.start.IsFresh milestones := IdSupply.isFresh_of_length (by decide +kernel)
  obtain ⟨final, visited, hFinal, -, -, -, hStands, hUndone⟩ :=
    apply_pass hd milestonesStates milestonesPattern hFresh.isUnused
  obtain rfl := Except.ok.inj (hApply.symm.trans hFinal)
  exact ⟨hOutline, hLearn, hApply, hStands, hUndone⟩

end FormulaOutline
