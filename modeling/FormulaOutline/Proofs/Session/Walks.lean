import FormulaOutline.Proofs.Scope.Shapes
import FormulaOutline.Proofs.Session.Operations

/-!
# Walks over what a scope owns

Disabling, rebuilding and evaluating a scope go over all that it owns with a stack, the last one while
it changes the records; the descent is recursive. They all come to the same scopes, once to each.

* `Rooted.bottomUp`: what is passed on from the owned scopes to their owner holds of all scopes.
* `Rooted.owned_eq`, `Rooted.descend_eq`: the walks without fuel.
* `Loop`: a loop over a stack of scopes; `Rooted.loop` says what such a loop comes to.
* `startAll_eq`: which evaluations are started, and `startAll_again`: not twice.
* `Descent`: the order of a descent, and the contexts that it hands on.
* `walks_cover`: all of it for every session that a document comes to.
-/

namespace FormulaOutline

namespace ScopeTree

open Relation

variable {t : ScopeTree} {x y z : ScopeId} {r : ScopeRecord} {n : Nat}

/-! ## Walks without fuel -/

/-- What holds of a scope if it holds of all that the scope owns holds of every scope. -/
theorem Rooted.bottomUp (h : t.Rooted) {P : ScopeId → Prop}
    (hStep : ∀ x r, t.record? x = some r → (∀ y ∈ r.owned, P y) → P x)
    (hx : t.record? x = some r) : P x := by
  -- The induction is on the number of slots that are left below the depth of the scope.
  have hDepth : ∀ k n x, t.Descends t.root n x → t.arena.slots.size ≤ n + k → P x := by
    obtain ⟨root, hRoot, -⟩ := h.root
    intro k
    induction k with
    | zero =>
      intro n x hn hSize
      exact absurd (h.depth_lt hn) (Nat.not_lt.mpr hSize)
    | succ k ih =>
      intro n x hn hSize
      obtain ⟨r, hr⟩ := h.live_of_descends ⟨root, hRoot⟩ hn
      exact hStep x r hr fun y hy => ih (n + 1) y (hn.step ⟨r, hr, hy⟩) (by omega)
  obtain ⟨n, hn⟩ := h.depth_exists ⟨r, hx⟩
  exact hDepth t.arena.slots.size n x hn (Nat.le_add_left _ _)

theorem walkWithin_succ (h : t.Rooted) {links : ScopeRecord → List ScopeId}
    (hLinks : ∀ r, links r ⊆ r.owned) {fuel : Nat} (hn : t.Descends t.root n x)
    (hFuel : t.arena.slots.size ≤ fuel + n) :
    t.walkWithin links (fuel + 1) x = t.walkWithin links fuel x := by
  induction fuel generalizing n x with
  | zero =>
    have := h.depth_lt hn
    omega
  | succ fuel ih =>
    rw [walkWithin, walkWithin]
    cases hr : t.record? x with
    | none => rfl
    | some r =>
      refine congrArg (x :: ·) (List.flatMap_congr fun y hy => ?_)
      exact ih (hn.step ⟨r, hr, hLinks r hy⟩) (by omega)

/-- What a scope owns: the scope itself and what the scopes own to which it leads. -/
theorem Rooted.owned_eq (h : t.Rooted) (hx : t.record? x = some r) :
    t.owned x = x :: r.owned.reverse.flatMap t.owned := by
  obtain ⟨n, hn⟩ := h.depth_exists ⟨r, hx⟩
  have hSize := h.depth_lt hn
  have hLinks : ∀ r : ScopeRecord, r.owned.reverse ⊆ r.owned := fun r => List.reverse_subset.mpr
    (List.Subset.refl _)
  rw [owned, walk, ← walkWithin_succ h hLinks hn (Nat.le_add_right _ _), walkWithin, hx]
  rfl

theorem linksOf_subset (transclusions : Bool) (r : ScopeRecord) : linksOf transclusions r ⊆ r.owned := by
  cases transclusions with
  | true => exact List.Subset.refl _
  | false => exact List.subset_append_left _ _

variable {γ : Type} {transclusions : Bool} {step : ScopeId → γ → γ} {context : γ}

theorem descendWithin_succ (h : t.Rooted) {fuel : Nat} (hn : t.Descends t.root n x)
    (hFuel : t.arena.slots.size ≤ fuel + n) :
    t.descendWithin (linksOf transclusions) step (fuel + 1) context x =
      t.descendWithin (linksOf transclusions) step fuel context x := by
  induction fuel generalizing n x context with
  | zero =>
    have := h.depth_lt hn
    omega
  | succ fuel ih =>
    rw [descendWithin, descendWithin]
    cases hr : t.record? x with
    | none => rfl
    | some r =>
      refine congrArg ((x, context) :: ·) (List.flatMap_congr fun y hy => ?_)
      exact ih (hn.step ⟨r, hr, linksOf_subset transclusions r hy⟩) (by omega)

/-- A descent visits a scope, then descends to each scope to which its links lead. -/
theorem Rooted.descend_eq (h : t.Rooted) (hx : t.record? x = some r) :
    t.descend transclusions step context x = (x, context) ::
      (linksOf transclusions r).flatMap (t.descend transclusions step (step x context)) := by
  obtain ⟨n, hn⟩ := h.depth_exists ⟨r, hx⟩
  rw [descend, descendWithin, hx]
  refine congrArg ((x, context) :: ·) (List.flatMap_congr fun y hy => ?_)
  exact (descendWithin_succ h (hn.step ⟨r, hx, linksOf_subset transclusions r hy⟩) (by omega)).symm

/-- What a scope owns does not depend on how far its evaluation has come. -/
theorem SameShape.owned {t' : ScopeTree} (h : t.SameShape t') (x : ScopeId) :
    t.owned x = t'.owned x := by
  rw [ScopeTree.owned, ScopeTree.owned, walk, walk, h.slots]
  generalize t'.arena.slots.size = fuel
  induction fuel generalizing x with
  | zero => rfl
  | succ fuel ih =>
    have hOwned := h.map_record? ScopeRecord.owned (fun _ => rfl) x
    rw [walkWithin, walkWithin]
    cases hr : t.record? x with
    | none =>
      rw [hr, Option.map_none, eq_comm, Option.map_eq_none_iff] at hOwned
      rw [hOwned]
    | some r =>
      rw [hr, Option.map_some, eq_comm, Option.map_eq_some_iff] at hOwned
      obtain ⟨r', hr', hLinks⟩ := hOwned
      rw [hr']
      simp only [hLinks]
      exact congrArg (x :: ·) (List.flatMap_congr fun y _ => ih y)

/-! ## Loops over a stack -/

/-- A loop over a stack of scopes. The body changes a state and says which scopes are put on the stack
in the place of the one that it was given. -/
inductive Loop {σ : Type} (body : σ → ScopeId → σ × List ScopeId) : σ → List ScopeId → σ → Prop
  | done {s : σ} : Loop body s [] s
  | next {s s' : σ} {x : ScopeId} {rest : List ScopeId}
      (h : Loop body (body s x).1 ((body s x).2 ++ rest) s') : Loop body s (x :: rest) s'

variable {σ : Type} {body : σ → ScopeId → σ × List ScopeId} {s s' : σ} {rest : List ScopeId}

theorem Loop.unique {s'' : σ} (h : Loop body s rest s') (h' : Loop body s rest s'') : s' = s'' := by
  induction h with
  | done =>
    cases h'
    rfl
  | next _ ih =>
    cases h' with
    | next h' => exact ih h'

/-- A loop that always finds the links of one tree goes over what a scope owns, whatever it does to its
state meanwhile. -/
theorem Rooted.loop (h : t.Rooted) {I : σ → Prop}
    (hLinks : ∀ s x r, I s → t.record? x = some r → (body s x).2 = r.owned.reverse)
    (hKeep : ∀ s x, I s → I (body s x).1) (hx : t.record? x = some r) (hI : I s)
    (hRest : Loop body ((t.owned x).foldl (fun s x => (body s x).1) s) rest s') :
    Loop body s (x :: rest) s' := by
  have hAll : ∀ s rest, I s →
      Loop body ((t.owned x).foldl (fun s x => (body s x).1) s) rest s' →
        Loop body s (x :: rest) s' := by
    refine h.bottomUp (P := fun x => ∀ s rest, I s →
      Loop body ((t.owned x).foldl (fun s x => (body s x).1) s) rest s' →
        Loop body s (x :: rest) s') ?_ hx
    intro x r hr ih s rest hI hRest
    have hEach : ∀ ys ⊆ r.owned, ∀ s, I s →
        Loop body ((ys.flatMap t.owned).foldl (fun s x => (body s x).1) s) rest s' →
          Loop body s (ys ++ rest) s' := by
      intro ys hys
      induction ys with
      | nil => exact fun s _ hRest => hRest
      | cons y ys ihEach =>
        intro s hI hRest
        rw [List.cons_subset] at hys
        rw [List.flatMap_cons, List.foldl_append] at hRest
        refine ih y hys.1 s _ hI (ihEach hys.2 _ ?_ hRest)
        exact List.foldlRecOn _ _ hI fun s hs x _ => hKeep s x hs
    rw [h.owned_eq hr, List.foldl_cons] at hRest
    refine .next ?_
    rw [hLinks s x r hI hr]
    exact hEach _ (List.reverse_subset.mpr (List.Subset.refl _)) _ (hKeep s x hI) hRest
  exact hAll s rest hI hRest

/-- The body of the loop that collects what a scope owns. -/
def collect (t : ScopeTree) (ids : List ScopeId) (x : ScopeId) : List ScopeId × List ScopeId :=
  match t.record? x with
  | none => (ids, [])
  | some r => (ids ++ [x], r.owned.reverse)

/-- The loop with a stack collects what the walk finds. -/
theorem Rooted.loop_collect (h : t.Rooted) (hx : t.record? x = some r) {ids : List ScopeId} :
    Loop t.collect [] [x] ids ↔ ids = t.owned x := by
  have hFold : ∀ ids ⊆ t.owned x, ∀ found,
      ids.foldl (fun ids x => (t.collect ids x).1) found = found ++ ids := by
    intro ids hids
    induction ids with
    | nil => exact fun found => (List.append_nil found).symm
    | cons y ids ih =>
      intro found
      rw [List.cons_subset] at hids
      obtain ⟨n, hn⟩ := reaches_iff_descends.mp ((mem_owned_iff h ⟨r, hx⟩).mp hids.1)
      obtain ⟨ry, hy⟩ := h.live_of_descends ⟨r, hx⟩ hn
      rw [List.foldl_cons, ih hids.2, collect, hy, List.append_assoc, List.singleton_append]
  have hLoop : Loop t.collect [] [x] (t.owned x) := by
    refine h.loop (I := fun _ => True) (fun s x r _ hr => ?_) (fun _ _ _ => trivial) hx trivial ?_
    · rw [collect, hr]
    · rw [hFold _ (List.Subset.refl _), List.nil_append]
      exact .done
  exact ⟨fun hids => hids.unique hLoop, fun hids => hids ▸ hLoop⟩

/-! ## Descents -/

/-- A link that a walk follows. -/
def Leads (t : ScopeTree) (transclusions : Bool) (x y : ScopeId) : Prop :=
  ∃ r, t.record? x = some r ∧ y ∈ linksOf transclusions r

/-- The scopes on the way from one scope to another one, without the last one. -/
inductive Way (t : ScopeTree) (transclusions : Bool) : ScopeId → List ScopeId → ScopeId → Prop
  | here {x : ScopeId} : Way t transclusions x [] x
  | step {x y z : ScopeId} {between : List ScopeId} (hLeads : t.Leads transclusions x y)
      (h : Way t transclusions y between z) : Way t transclusions x (x :: between) z

/-- What a descent from a scope visits, with the contexts. -/
structure Descent (t : ScopeTree) (transclusions : Bool) (step : ScopeId → γ → γ) (context : γ)
    (x : ScopeId) (visits : List (ScopeId × γ)) : Prop where
  /-- No scope is visited twice. -/
  nodup : (visits.map Prod.fst).Nodup
  /-- What is visited is what the links lead to. -/
  mem : ∀ y, y ∈ visits.map Prod.fst ↔ ReflTransGen (t.Leads transclusions) x y
  /-- The links of a scope are followed in their order. -/
  order : ∀ y r, y ∈ visits.map Prod.fst → t.record? y = some r →
    (y :: linksOf transclusions r).Sublist (visits.map Prod.fst)
  /-- A scope is visited before all that its links lead to. -/
  before : ∀ y z, y ∈ visits.map Prod.fst → TransGen (t.Leads transclusions) y z →
    [y, z].Sublist (visits.map Prod.fst)
  /-- The context of a visit has been handed on by the scopes on the way. -/
  context : ∀ y c, (y, c) ∈ visits ↔ ∃ way, t.Way transclusions x way y ∧
    c = way.foldl (fun c z => step z c) context

theorem owns_of_leads (h : t.Leads transclusions x y) : t.arena.Owns x y := by
  obtain ⟨r, hr, hy⟩ := h
  exact ⟨r, hr, linksOf_subset transclusions r hy⟩

theorem reaches_of_leads (h : ReflTransGen (t.Leads transclusions) x y) : t.arena.Reaches x y :=
  ReflTransGen.mono (fun _ _ => owns_of_leads) _ _ h

theorem exists_way_iff : (∃ way, t.Way transclusions x way y) ↔
    ReflTransGen (t.Leads transclusions) x y := by
  constructor
  · rintro ⟨way, h⟩
    induction h with
    | here => exact .refl
    | step hLeads _ ih => exact .head hLeads ih
  · intro h
    induction h using ReflTransGen.head_induction_on with
    | refl => exact ⟨[], .here⟩
    | head hLeads _ ih =>
      obtain ⟨way, h⟩ := ih
      exact ⟨_, .step hLeads h⟩

/-- The contexts of a descent. -/
theorem Rooted.mem_descend (h : t.Rooted) (hx : t.record? x = some r) {c : γ} :
    (y, c) ∈ t.descend transclusions step context x ↔ ∃ way, t.Way transclusions x way y ∧
      c = way.foldl (fun c z => step z c) context := by
  refine h.bottomUp (P := fun x => ∀ context,
    (y, c) ∈ t.descend transclusions step context x ↔ ∃ way, t.Way transclusions x way y ∧
      c = way.foldl (fun c z => step z c) context) ?_ hx context
  intro x r hr ih context
  rw [h.descend_eq hr, List.mem_cons, List.mem_flatMap]
  constructor
  · rintro (hEq | ⟨z, hz, hVisit⟩)
    · cases hEq
      exact ⟨[], .here, rfl⟩
    · obtain ⟨way, hWay, hContext⟩ := (ih z (linksOf_subset transclusions r hz) _).mp hVisit
      exact ⟨x :: way, .step ⟨r, hr, hz⟩ hWay, hContext⟩
  · rintro ⟨way, hWay, hContext⟩
    cases hWay with
    | here => exact .inl (congrArg _ hContext)
    | @step _ z _ between hLeads hWay =>
      obtain ⟨r', hr', hz⟩ := hLeads
      obtain rfl := Option.some.inj (hr.symm.trans hr')
      exact .inr ⟨z, hz, (ih z (linksOf_subset transclusions r hz) _).mpr ⟨between, hWay, hContext⟩⟩

theorem Rooted.mem_descend_fst (h : t.Rooted) (hx : t.record? x = some r) :
    y ∈ (t.descend transclusions step context x).map Prod.fst ↔
      ReflTransGen (t.Leads transclusions) x y := by
  rw [← exists_way_iff, List.mem_map]
  constructor
  · rintro ⟨⟨y, c⟩, hVisit, rfl⟩
    obtain ⟨way, hWay, -⟩ := (h.mem_descend hx).mp hVisit
    exact ⟨way, hWay⟩
  · rintro ⟨way, hWay⟩
    exact ⟨(y, _), (h.mem_descend hx).mpr ⟨way, hWay, rfl⟩, rfl⟩

theorem Rooted.nodup_descend (h : t.Rooted) (hx : t.record? x = some r) :
    ((t.descend transclusions step context x).map Prod.fst).Nodup := by
  refine h.bottomUp (P := fun x => ∀ context,
    ((t.descend transclusions step context x).map Prod.fst).Nodup) ?_ hx context
  intro x r hr ih context
  have hLive : ∀ y ∈ linksOf transclusions r, ∃ s, t.record? y = some s := by
    intro y hy
    obtain ⟨s, hs, -⟩ := h.live_of_owns ⟨r, hr, linksOf_subset transclusions r hy⟩
    exact ⟨s, hs⟩
  have hMem : ∀ y ∈ linksOf transclusions r, ∀ z,
      z ∈ (t.descend transclusions step (step x context) y).map Prod.fst → t.arena.Reaches y z := by
    intro y hy z hz
    obtain ⟨s, hs⟩ := hLive y hy
    exact reaches_of_leads ((h.mem_descend_fst hs).mp hz)
  have hLinks : (linksOf transclusions r).Nodup := by
    have hOwned := (h.linked x r hr).nodup
    cases transclusions with
    | true => exact hOwned
    | false => exact hOwned.of_append_left
  rw [h.descend_eq hr, List.map_cons, List.map_flatMap]
  refine List.nodup_cons.mpr ⟨fun hMemX => ?_, List.nodup_flatMap.mpr ⟨fun y hy =>
    ih y (linksOf_subset transclusions r hy) _, hLinks.imp_of_mem fun {y z} hy hz hne => ?_⟩⟩
  · obtain ⟨y, hy, hxy⟩ := List.mem_flatMap.mp hMemX
    exact h.not_reaches_owner ⟨r, hr, linksOf_subset transclusions r hy⟩ (hMem y hy x hxy)
  · rw [Function.onFun, List.disjoint_left]
    exact fun w hyw hzw => h.disjoint_of_owns ⟨r, hr, linksOf_subset transclusions r hy⟩
      ⟨r, hr, linksOf_subset transclusions r hz⟩ hne ⟨hMem y hy w hyw, hMem z hz w hzw⟩

/-- The visits from a scope that is visited follow each other. -/
theorem Rooted.infix_descend (h : t.Rooted) (hx : t.record? x = some r) :
    y ∈ (t.descend transclusions step context x).map Prod.fst →
      ∃ c, t.descend transclusions step c y <:+: t.descend transclusions step context x := by
  refine h.bottomUp (P := fun x => ∀ context,
    y ∈ (t.descend transclusions step context x).map Prod.fst →
      ∃ c, t.descend transclusions step c y <:+: t.descend transclusions step context x) ?_ hx context
  intro x r hr ih context hMem
  rw [h.descend_eq hr, List.map_cons, List.map_flatMap] at hMem
  rcases List.mem_cons.mp hMem with rfl | hMem
  · exact ⟨context, List.infix_refl _⟩
  · obtain ⟨z, hz, hMem⟩ := List.mem_flatMap.mp hMem
    obtain ⟨c, hInfix⟩ := ih z (linksOf_subset transclusions r hz) _ hMem
    rw [h.descend_eq hr]
    have hBranch := List.infix_of_mem_flatten (List.mem_map_of_mem
      (f := t.descend transclusions step (step x context)) hz)
    exact ⟨c, hInfix.trans (hBranch.trans (List.infix_cons (List.infix_refl _)))⟩

theorem Rooted.order_descend (h : t.Rooted) (hx : t.record? x = some r) {s : ScopeRecord}
    (hy : t.record? y = some s) (hMem : y ∈ (t.descend transclusions step context x).map Prod.fst) :
    (y :: linksOf transclusions s).Sublist
      ((t.descend transclusions step context x).map Prod.fst) := by
  obtain ⟨c, hInfix⟩ := h.infix_descend hx hMem
  refine List.Sublist.trans ?_ (hInfix.sublist.map Prod.fst)
  have hFirst : ((linksOf transclusions s).flatMap fun z => [z]).Sublist
      ((linksOf transclusions s).flatMap fun z =>
        (t.descend transclusions step (step y c) z).map Prod.fst) := by
    refine List.Sublist.flatMap_right _ fun z hz => ?_
    obtain ⟨rz, hrz, -⟩ := h.live_of_owns ⟨s, hy, linksOf_subset transclusions s hz⟩
    rw [h.descend_eq hrz]
    exact List.singleton_sublist.mpr List.mem_cons_self
  rw [List.flatMap_singleton'] at hFirst
  rw [h.descend_eq hy, List.map_cons, List.map_flatMap]
  exact hFirst.cons_cons y

theorem Rooted.before_descend (h : t.Rooted) (hx : t.record? x = some r)
    (hMem : y ∈ (t.descend transclusions step context x).map Prod.fst)
    (hyz : TransGen (t.Leads transclusions) y z) :
    [y, z].Sublist ((t.descend transclusions step context x).map Prod.fst) := by
  obtain ⟨c, hInfix⟩ := h.infix_descend hx hMem
  refine List.Sublist.trans ?_ (hInfix.sublist.map Prod.fst)
  obtain ⟨w, ⟨s, hy, hw⟩, hwz⟩ := TransGen.head'_iff.mp hyz
  have hne : z ≠ y := by
    rintro rfl
    exact h.not_reaches_owner (owns_of_leads ⟨s, hy, hw⟩) (reaches_of_leads hwz)
  have hz : z ∈ (t.descend transclusions step c y).map Prod.fst :=
    (h.mem_descend_fst hy).mpr hyz.to_reflTransGen
  rw [h.descend_eq hy, List.map_cons] at hz ⊢
  exact (List.singleton_sublist.mpr ((List.mem_cons.mp hz).resolve_left hne)).cons_cons y

theorem Rooted.descent (h : t.Rooted) (hx : t.record? x = some r) :
    t.Descent transclusions step context x (t.descend transclusions step context x) where
  nodup := h.nodup_descend hx
  mem _ := h.mem_descend_fst hx
  order _ _ hMem hy := h.order_descend hx hy hMem
  before _ _ hMem hyz := h.before_descend hx hMem hyz
  context _ _ := h.mem_descend hx

end ScopeTree

namespace Session

open ScopeTree Relation

variable {s s' : Session} {x y : ScopeId} {r : ScopeRecord} {ids : List ScopeId}

/-! ## Starting evaluations -/

theorem sameShape_started (s : Session) (ids : List ScopeId) :
    s.tree.SameShape (s.started ids).tree := by
  show s.tree.SameShape (s.tree.modifyAll ids begun)
  generalize s.tree = t
  induction ids generalizing t with
  | nil => exact .refl t
  | cons x rest ih => exact (sameShape_modify t x (f := begun) fun _ => rfl).trans (ih _)

/-- After the start of the evaluations that are waiting none of them waits any more. -/
theorem waits_started (hNodup : ids.Nodup) (hy : y ∈ ids) :
    (s.started (ids.filter s.waits)).waits y = false := by
  have hRecord := record?_modifyAll (t := s.tree) (hNodup.filter s.waits) begun y
  cases hWaits : s.waits y with
  | true =>
    obtain ⟨r, hr, -, hState⟩ := waits_iff.mp hWaits
    rw [if_pos (List.mem_filter.mpr ⟨hy, hWaits⟩), hr] at hRecord
    rw [waits, started, hRecord]
    simp [begun, hState, EvalState.isIdle]
  | false =>
    rw [if_neg (by simp [hWaits])] at hRecord
    rw [waits] at hWaits ⊢
    rwa [started, hRecord]

/-! ## Evaluating -/

theorem startAll_eq (h : s.tree.Rooted) (x : ScopeId) :
    s.startAll x = s.listen.started ((s.tree.owned x).filter s.waits) :=
  startEach_eq (nodup_owned h x)

theorem startAll_again (h : s.tree.Rooted) (x : ScopeId) :
    (s.startAll x).startAll x = s.startAll x := by
  have hSame : s.tree.SameShape (s.startAll x).tree := by
    rw [startAll_eq h]
    exact sameShape_started s.listen _
  have hRooted := kept_rooted.startAll h x
  have hNone : ((s.startAll x).tree.owned x).filter (s.startAll x).waits = [] := by
    refine List.filter_eq_nil_iff.mpr fun y hy => ?_
    rw [← hSame.owned] at hy
    rw [startAll_eq h, Bool.not_eq_true]
    exact waits_started (nodup_owned h x) hy
  rw [startAll_eq hRooted, hNone, started_nil, startAll_eq h]
  rfl

/-- The body of the loop that starts evaluations. It reads the links of a scope when the evaluation of
the scope has been started. -/
def startNext (s : Session) (x : ScopeId) : Session × List ScopeId :=
  let s := (s.start x false).2
  (s, ((s.tree.record? x).map fun r => r.owned.reverse).getD [])

/-- The loop that starts evaluations comes to the session in which all have been started. -/
theorem loop_startNext (h : s.tree.Rooted) (hx : s.tree.record? x = some r) :
    Loop startNext s.listen [x] s' ↔ s' = s.startAll x := by
  have hStart : ∀ (s' : Session) y, s.tree.SameShape s'.tree →
      s.tree.SameShape (s'.start y false).2.tree := by
    intro s' y hSame
    rcases start_cases s' y false with hNone | ⟨_, -, -, -, hStart⟩
    · rwa [hNone]
    · rw [hStart]
      exact hSame.trans (sameShape_modify s'.tree y fun _ => rfl)
  have hLoop : Loop startNext s.listen [x] (s.startAll x) := by
    refine h.loop (I := fun s' => s.tree.SameShape s'.tree) (fun s' y ry hSame hy => ?_) hStart hx
      (.refl _) .done
    have hLinks := (hStart s' y hSame).map_record? (fun r => r.owned.reverse) (fun _ => rfl) y
    rw [startNext, ← hLinks, hy]
    rfl
  exact ⟨fun hs' => hs'.unique hLoop, fun hs' => hs' ▸ hLoop⟩

/-! ## All walks from a scope -/

/-- What the walks from a live scope come to: the scopes that it reaches by children and by the scopes
of nodes that are referred to. -/
structure Covers (s : Session) (x : ScopeId) : Prop where
  /-- Just these are disabled, with one more epoch, and no other record is changed. -/
  disable : ∀ y,
    (s.tree.arena.Reaches x y → ∃ r, s.tree.record? y = some r ∧ (s.disable x).tree.record? y =
      some { r with disabled := true, epoch := r.epoch + 1 }) ∧
    (¬ s.tree.arena.Reaches x y → (s.disable x).tree.record? y = s.tree.record? y)
  /-- Just these are dropped, once each, and no other scope goes with them. -/
  rebuild : ∀ d, ∃ new gone s', s.rebuild x d = .ok (new, s') ∧
    s.tree.rebuild x d = .ok (new, gone, s'.tree) ∧ gone.Nodup ∧
    (∀ y, y ∈ gone ↔ s.tree.arena.Reaches x y) ∧
    ∀ y, s.tree.isLive y = true → (s'.tree.isLive y = false ↔ s.tree.arena.Reaches x y)
  /-- One evaluation is started for each of these that is enabled and idle, and nothing else happens. -/
  evaluate : ∃ ids : List ScopeId, ids.Nodup ∧ s.startAll x = s.listen.started ids ∧
    ∀ y, y ∈ ids ↔ s.tree.arena.Reaches x y ∧
      ∃ r, s.tree.record? y = some r ∧ r.disabled = false ∧ r.state = .idle
  again : (s.startAll x).startAll x = s.startAll x
  /-- Loops with a stack come to the same. -/
  collected : ∀ ids, Loop s.tree.collect [] [x] ids ↔ ids = s.tree.owned x
  startedNext : ∀ s', Loop startNext s.listen [x] s' ↔ s' = s.startAll x
  /-- A descent visits these, or those that are reached by children alone. -/
  descend : ∀ {γ : Type} (transclusions : Bool) (step : ScopeId → γ → γ) (context : γ),
    s.tree.Descent transclusions step context x (s.tree.descend transclusions step context x)
  reaches : ∀ y, Relation.ReflTransGen (s.tree.Leads true) x y ↔ s.tree.arena.Reaches x y

theorem disable_covers (h : s.tree.Rooted) (hx : ∃ r, s.tree.record? x = some r) (y : ScopeId) :
    (s.tree.arena.Reaches x y → ∃ r, s.tree.record? y = some r ∧ (s.disable x).tree.record? y =
      some { r with disabled := true, epoch := r.epoch + 1 }) ∧
    (¬ s.tree.arena.Reaches x y → (s.disable x).tree.record? y = s.tree.record? y) := by
  have hRecord : (s.disable x).tree.record? y = _ := record?_disable h x y
  constructor
  · intro hy
    obtain ⟨n, hn⟩ := reaches_iff_descends.mp hy
    obtain ⟨r, hr⟩ := h.live_of_descends hx hn
    rw [if_pos ((mem_owned_iff h hx).mpr hy), hr] at hRecord
    exact ⟨r, hr, hRecord⟩
  · intro hy
    rwa [if_neg (mt (mem_owned_iff h hx).mp hy)] at hRecord

theorem rebuild_covers (h : s.tree.Rooted) (hx : s.tree.record? x = some r) (d : Document) :
    ∃ new gone s', s.rebuild x d = .ok (new, s') ∧
      s.tree.rebuild x d = .ok (new, gone, s'.tree) ∧ gone.Nodup ∧
      (∀ y, y ∈ gone ↔ s.tree.arena.Reaches x y) ∧
      ∀ y, s.tree.isLive y = true → (s'.tree.isLive y = false ↔ s.tree.arena.Reaches x y) := by
  obtain ⟨new, gone, t', hRebuild⟩ := exists_rebuild hx d
  obtain ⟨-, hNodup, hGone⟩ := mem_gone_iff h hRebuild
  obtain ⟨hStays, -, -⟩ := record?_rebuild h hRebuild
  refine ⟨new, gone, _, by rw [rebuild, hRebuild]; rfl, hRebuild, hNodup, hGone, fun y hy => ?_⟩
  rw [← hGone]
  constructor
  · intro hDead
    by_contra hNot
    obtain ⟨r, hr⟩ := isLive_iff.mp hy
    obtain ⟨r', hr', -⟩ := hStays y r hr hNot
    exact absurd (isLive_iff.mpr ⟨r', hr'⟩) (by rw [hDead]; exact Bool.false_ne_true)
  · intro hMem
    rw [← Bool.not_eq_true, isLive_iff]
    rintro ⟨r', hr'⟩
    rw [record?_of_gone h hRebuild hMem] at hr'
    cases hr'

theorem covers (h : s.tree.Rooted) (hx : s.tree.record? x = some r) : s.Covers x where
  disable := disable_covers h ⟨r, hx⟩
  rebuild := rebuild_covers h hx
  evaluate := by
    refine ⟨_, (nodup_owned h x).filter s.waits, startAll_eq h x, fun y => ?_⟩
    rw [List.mem_filter, mem_owned_iff h ⟨r, hx⟩, waits_iff]
  again := startAll_again h x
  collected _ := h.loop_collect hx
  startedNext _ := loop_startNext h hx
  descend _ _ _ := h.descent hx
  reaches _ := Iff.rfl

/-- Whatever has happened to the session of a document, the walks from any live scope come to the same
scopes, each of them once. -/
theorem walks_cover (d : Document) (functions : Registry) (config : EngineConfig)
    (providers : Directory) (h : Reachable (ofTree (.build d) functions config providers) s)
    (hx : s.tree.isLive x = true) : s.Covers x := by
  obtain ⟨r, hr⟩ := isLive_iff.mp hx
  exact covers (h.rooted (rooted_build d)) hr

/-- A root with a child, which has a child to which the root refers. -/
def twiceBelow : Document :=
  ⟨"root", [⟨"root", "\x7b#[b]\x7d", ["a"]⟩, ⟨"a", "x", ["b"]⟩, ⟨"b", "y", []⟩], 0⟩

def twiceBelowBlueprint : Blueprint :=
  let b := .scope "b" ⟨none, [.string ⟨0, 1, 1, 1⟩ "y"], ⟨0, 1, 1, 1⟩⟩ [] []
  .scope "root" ⟨none, [.inline ⟨0, 6, 1, 1⟩ (.reference ⟨1, 5, 1, 2⟩ "b")], ⟨0, 6, 1, 1⟩⟩
    [.scope "a" ⟨none, [.string ⟨0, 1, 1, 1⟩ "x"], ⟨0, 1, 1, 1⟩⟩ [b] []] [b]

theorem build_twiceBelow : build twiceBelow = planted twiceBelowBlueprint := build_eq (by cbv)

/-- Of four scopes one is under way and two are disabled. -/
theorem walks_cover_twiceBelow :
    ((ofTree (.build twiceBelow) [] .default .empty).run
      [.start ⟨3, 0⟩ false, .disable ⟨1, 0⟩]).Covers ⟨0, 0⟩ :=
  walks_cover twiceBelow [] .default .empty (Reachable.refl.run _) (by rw [build_twiceBelow]; rfl)

end Session

end FormulaOutline
