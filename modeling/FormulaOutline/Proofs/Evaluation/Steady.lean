import FormulaOutline.Evaluation.Process
import FormulaOutline.Proofs.Scope.Shapes

/-!
# Processes whose result does not depend on when they run

While a tree is evaluated its scopes get values one after the other. A process is steady towards a
tree that knows more if whatever it looks at on the way looks the same in both trees, because it has
waited for it before. Then its result is the one that it has when it looks at the larger tree only.

* `ScopeTree.Within`: one tree knows the values that another one knows.
* `Process.settled`: the result of a process that looks at one tree all the time.
* `Process.Steady`: whatever the process looks at, it looks the same in both trees.
* `Leads`: a piece of a process ends in a value; `leads_valueOfScope`, `leads_typed`, `leads_both`
  and others put such pieces together.
-/

namespace FormulaOutline

/-- The value neither points to a scope nor holds other values. -/
def Value.IsScalar : Value → Prop
  | .list _ => False
  | .record _ => False
  | .scope _ => False
  | _ => True

/-! ## Trees that know more and more -/

namespace ScopeTree

variable {t t' t'' u : ScopeTree} {x : ScopeId}

/-- The second tree knows the values that the first one knows. -/
structure Within (t u : ScopeTree) : Prop where
  same : t.SameShape u
  values : ∀ x vs, t.values? x = some vs → u.values? x = some vs

theorem Within.refl (t : ScopeTree) : t.Within t := ⟨.refl t, fun _ _ h => h⟩

theorem Within.trans (h : t.Within t') (h' : t'.Within t'') : t.Within t'' :=
  ⟨h.same.trans h'.same, fun x vs hx => h'.values x vs (h.values x vs hx)⟩

/-- The first tree knows as much about a scope as the second. -/
def Knows (t u : ScopeTree) (x : ScopeId) : Prop := t.values? x = u.values? x

theorem Knows.mono (h : t.Knows u x) (ht : t.Within t') (hu : t'.Within u) : t'.Knows u x := by
  cases hx : t.values? x with
  | none =>
    rw [Knows, hx] at h
    cases hx' : t'.values? x with
    | none => rw [Knows, hx', h]
    | some vs =>
      rw [hu.values x vs hx'] at h
      cases h
  | some vs => rw [Knows, ht.values x vs hx, ← h, hx]

theorem values?_eq_none_of_dead (h : t.isLive x = false) : t.values? x = none := by
  rw [isLive, Arena.isLive, Option.isSome_eq_false_iff, Option.isNone_iff_eq_none] at h
  rw [values?, state, record?, h]
  rfl

/-! ## Pointers -/

/-- The node that an expression stands for, if it is a reference and nothing else. -/
def pointer? : Formula.Expr → Option NodeId
  | .reference _ node => some node
  | .inline _ inner => pointer? inner
  | _ => none

/-- The scope that an expression in a scope points to. -/
def pointerIn? (t : ScopeTree) (x : ScopeId) (e : Formula.Expr) : Option ScopeId :=
  (pointer? e).bind (t.transcludedScope? x)

/-- The scopes that the parts of a scope point to. -/
def pointed (t : ScopeTree) (x : ScopeId) : List ScopeId :=
  (((t.record? x).map fun r => r.bullet.parts).getD []).filterMap (t.pointerIn? x)

/-- The values that are stored are scalars, or point to scopes to which their bullets point. -/
def Honest (t : ScopeTree) : Prop :=
  ∀ x vs, t.values? x = some vs → ∀ v ∈ vs, v.IsScalar ∨ ∃ y ∈ t.pointed x, v = .scope y

/-- The scopes that a scope points to do not point on. -/
def Flat (t : ScopeTree) (x : ScopeId) : Prop := ∀ y ∈ t.pointed x, t.pointed y = []

theorem SameShape.pointerIn? (h : t.SameShape t') (x : ScopeId) (e : Formula.Expr) :
    t.pointerIn? x e = t'.pointerIn? x e := by
  rw [ScopeTree.pointerIn?, ScopeTree.pointerIn?]
  congr 1
  funext node
  exact h.transcludedScope? x node

theorem SameShape.pointed (h : t.SameShape t') (x : ScopeId) : t.pointed x = t'.pointed x := by
  have hPointer : t.pointerIn? x = t'.pointerIn? x := funext (h.pointerIn? x)
  rw [ScopeTree.pointed, ScopeTree.pointed, hPointer,
    h.map_record? (fun r => r.bullet.parts) (fun _ => rfl) x]

/-! ## What a tree shows -/

/-- The scopes to which the values of a scope point. -/
def targets (t : ScopeTree) (x : ScopeId) : List ScopeId :=
  ((t.values? x).getD []).filterMap Value.asScope

theorem mem_targets {y : ScopeId} {vs : List Value} (hx : t.values? x = some vs) :
    y ∈ t.targets x ↔ .scope y ∈ vs := by
  rw [targets, hx, Option.getD_some, List.mem_filterMap]
  constructor
  · rintro ⟨v, hv, hScope⟩
    cases v <;> cases hScope
    exact hv
  · exact fun hy => ⟨_, hy, rfl⟩

theorem ownValue_congr (h : t.Knows u x) : t.ownValue x = u.ownValue x := by
  rw [ownValue, ownValue, h]

theorem value_congr (h : t.Knows u x) (hTargets : ∀ y ∈ u.targets x, t.Knows u y) :
    t.value x = u.value x := by
  rw [value, value, h]
  cases hx : u.values? x with
  | none => rfl
  | some vs =>
    have hSame : vs.map (followWith t.ownValue) = vs.map (followWith u.ownValue) := by
      refine List.map_congr_left fun v hv => ?_
      cases v with
      | scope y => exact ownValue_congr (hTargets y ((mem_targets hx).2 hv))
      | _ => rfl
    simp only [hSame]

/-- What is read with a type looks the same once the scopes are known that it points to, provided
these do not point on. -/
theorem typedValue?_congr (hSame : t.SameShape u) (h : t.Knows u x)
    (hTargets : ∀ y ∈ u.targets x, t.Knows u y) (hFlat : ∀ y ∈ u.targets x, u.targets y = []) :
    t.typedValue? x = u.typedValue? x := by
  rw [typedValue?, typedValue?, candidates, candidates]
  have hBullet := hSame.map_record? ScopeRecord.bullet (fun _ => rfl) x
  have hValues := h
  rw [Knows, values?, values?, state, state] at hValues
  cases hr : t.record? x with
  | none =>
    cases hr' : u.record? x with
    | none => rfl
    | some r' => rw [hr, hr'] at hBullet; cases hBullet
  | some r =>
    cases hr' : u.record? x with
    | none => rw [hr, hr'] at hBullet; cases hBullet
    | some r' =>
      rw [hr, hr', Option.map_some, Option.map_some, Option.some.injEq] at hBullet
      simp only [hr, hr', Option.map_some, Option.getD_some] at hValues
      simp only [hValues, hBullet]
      cases hx : r'.state.values? with
      | none => rfl
      | some vs =>
        have hKnown : u.values? x = some vs := by
          rw [values?, state, hr']
          exact hx
        have hMap : vs.map (followWith t.value) = vs.map (followWith u.value) := by
          refine List.map_congr_left fun v hv => ?_
          cases v with
          | scope y =>
            have hy := (mem_targets hKnown).2 hv
            refine value_congr (hTargets y hy) ?_
            rw [hFlat y hy]
            simp
          | _ => rfl
        simp only [hMap]

/-! ## Scalars -/

theorem isScalar_combine {vs : List Value} (h : ∀ v ∈ vs, v.IsScalar) : (combine vs).IsScalar := by
  match vs with
  | [] => trivial
  | [v] => exact h v List.mem_cons_self
  | v :: w :: rest => trivial

theorem Honest.isScalar_ownValue (h : t.Honest) (x : ScopeId) : (t.ownValue x).IsScalar := by
  rw [ownValue]
  split
  · rename_i vs hx
    refine isScalar_combine fun v hv => ?_
    obtain ⟨w, hw, rfl⟩ := List.mem_map.1 hv
    rcases h x vs hx w hw with hScalar | ⟨y, -, rfl⟩
    · cases w <;> first | exact hScalar | trivial
    · trivial
  · trivial

theorem Honest.isScalar_value (h : t.Honest) (x : ScopeId) : (t.value x).IsScalar := by
  rw [value]
  split
  · rename_i vs hx
    refine isScalar_combine fun v hv => ?_
    obtain ⟨w, hw, rfl⟩ := List.mem_map.1 hv
    rcases h x vs hx w hw with hScalar | ⟨y, -, rfl⟩
    · cases w <;> first | exact hScalar | exact h.isScalar_ownValue _
    · exact h.isScalar_ownValue y
  · trivial

/-- In an honest tree values point to no more scopes than bullets. -/
theorem Honest.targets_subset (h : t.Honest) (x : ScopeId) : t.targets x ⊆ t.pointed x := by
  intro y hy
  cases hx : t.values? x with
  | none => simp [targets, hx] at hy
  | some vs =>
    rcases h x vs hx _ ((mem_targets hx).1 hy) with hScalar | ⟨z, hz, hSame⟩
    · exact hScalar.elim
    · cases hSame
      exact hz

end ScopeTree

/-! ## Results and steadiness -/

namespace Process

open ScopeTree

mutual

/-- The result of a process that finds all that it looks at and waits for in one tree. -/
def settled (u : ScopeTree) : Process → Value
  | .done v => v
  | .look next => settled u (next u)
  | .await id next => settled u (next (u.values? id))
  | .waiting id _ next => settled u (next (u.values? id))
  | .sleep _ next => settled u next
  | .sleeping _ next => settled u next
  | .publish _ _ _ next => settled u next
  | .consult _ _ => .undefined
  | .gather parts next => settled u (next (settledAll u parts))

def settledAll (u : ScopeTree) : List Process → List Value
  | [] => []
  | p :: rest => settled u p :: settledAll u rest

end

/-- A tree that is reached between two others, and that is honest. -/
structure Between (t t' u : ScopeTree) : Prop where
  lower : t.Within t'
  upper : t'.Within u
  honest : t'.Honest

theorem Between.mono {t t' t'' u : ScopeTree} (h : Between t' t'' u) (ht : t.Within t') :
    Between t t'' u :=
  ⟨ht.trans h.lower, h.upper, h.honest⟩

mutual

/-- From a tree on, up to a larger one, whatever the process looks at does not change its result,
which satisfies `P`. The process only looks and waits. The flag says whether it may be waiting
already. -/
def Steady (u : ScopeTree) (begun : Bool) : Process → (P : Value → Prop) → ScopeTree → Prop
  | .done v, P, _ => P v
  | .look next, P, t => ∀ t', Between t t' u →
      settled u (next t') = settled u (next u) ∧ Steady u false (next t') P t'
  | .await id next, P, t => ∀ t', Between t t' u → t'.Knows u id →
      Steady u false (next (u.values? id)) P t'
  | .waiting id _ next, P, t => begun = true ∧ ∀ t', Between t t' u → t'.Knows u id →
      Steady u false (next (u.values? id)) P t'
  | .sleep _ _, _, _ => False
  | .sleeping _ _, _, _ => False
  | .publish _ _ _ _, _, _ => False
  | .consult _ _, _, _ => False
  | .gather parts next, P, t =>
      ∃ Q, AllSteady u begun parts Q t ∧ ∀ t', Between t t' u → (∀ v ∈ settledAll u parts, Q v) →
        Steady u false (next (settledAll u parts)) P t'

def AllSteady (u : ScopeTree) (begun : Bool) : List Process → (Q : Value → Prop) → ScopeTree → Prop
  | [], _, _ => True
  | p :: rest, Q, t => Steady u begun p Q t ∧ AllSteady u begun rest Q t

end

-- Almost every proof below opens one of these functions, whose equations are generated here, once.
attribute [local simp] settled settledAll Steady AllSteady

theorem settledAll_eq (u : ScopeTree) (ps : List Process) :
    settledAll u ps = ps.map (settled u) := by
  induction ps with
  | nil => rfl
  | cons p rest ih => rw [settledAll, ih, List.map_cons]

theorem allSteady_iff {u t : ScopeTree} {begun : Bool} {ps : List Process} {Q : Value → Prop} :
    AllSteady u begun ps Q t ↔ ∀ p ∈ ps, Steady u begun p Q t := by
  induction ps with
  | nil => simp
  | cons p rest ih => simp [ih]

variable {u t t' : ScopeTree} {begun : Bool} {P : Value → Prop}

mutual

/-- A process stays steady while the tree gets to know more. -/
theorem Steady.mono : (p : Process) → {P : Value → Prop} → Steady u begun p P t → t.Within t' →
    Steady u begun p P t'
  | .done v, P, h, _ => by
    rw [Steady] at h ⊢
    exact h
  | .look next, P, h, ht => by
    rw [Steady] at h ⊢
    exact fun t'' hBetween => h t'' (hBetween.mono ht)
  | .await id next, P, h, ht => by
    rw [Steady] at h ⊢
    exact fun t'' hBetween => h t'' (hBetween.mono ht)
  | .waiting id _ next, P, h, ht => by
    rw [Steady] at h ⊢
    exact ⟨h.1, fun t'' hBetween => h.2 t'' (hBetween.mono ht)⟩
  | .gather parts next, P, h, ht => by
    rw [Steady] at h ⊢
    obtain ⟨Q, hParts, hNext⟩ := h
    exact ⟨Q, AllSteady.mono parts hParts ht, fun t'' hBetween => hNext t'' (hBetween.mono ht)⟩
  | .sleep _ _, P, h, _ => by
    rw [Steady] at h
    exact h.elim
  | .sleeping _ _, P, h, _ => by
    rw [Steady] at h
    exact h.elim
  | .publish _ _ _ _, P, h, _ => by
    rw [Steady] at h
    exact h.elim
  | .consult _ _, P, h, _ => by
    rw [Steady] at h
    exact h.elim

theorem AllSteady.mono : (ps : List Process) → {Q : Value → Prop} → AllSteady u begun ps Q t →
    t.Within t' → AllSteady u begun ps Q t'
  | [], _, _, _ => trivial
  | p :: rest, Q, h, ht => by
    rw [AllSteady] at h ⊢
    exact ⟨Steady.mono p h.1 ht, AllSteady.mono rest h.2 ht⟩

end

mutual

theorem Steady.begun : (p : Process) → {P : Value → Prop} → Steady u false p P t →
    Steady u true p P t
  | .done _, _, h => by
    rw [Steady] at h ⊢
    exact h
  | .look _, _, h => by
    rw [Steady] at h ⊢
    exact h
  | .await _ _, _, h => by
    rw [Steady] at h ⊢
    exact h
  | .waiting _ _ _, _, h => by
    rw [Steady] at h
    exact (Bool.false_ne_true h.1).elim
  | .gather parts _, _, h => by
    rw [Steady] at h ⊢
    obtain ⟨Q, hParts, hNext⟩ := h
    exact ⟨Q, AllSteady.begun parts hParts, hNext⟩
  | .sleep _ _, _, h => by
    rw [Steady] at h
    exact h.elim
  | .sleeping _ _, _, h => by
    rw [Steady] at h
    exact h.elim
  | .publish _ _ _ _, _, h => by
    rw [Steady] at h
    exact h.elim
  | .consult _ _, _, h => by
    rw [Steady] at h
    exact h.elim

theorem AllSteady.begun : (ps : List Process) → {Q : Value → Prop} → AllSteady u false ps Q t →
    AllSteady u true ps Q t
  | [], _, _ => trivial
  | p :: rest, _, h => by
    rw [AllSteady] at h ⊢
    exact ⟨Steady.begun p h.1, AllSteady.begun rest h.2⟩

end

/-! ## Pieces of processes -/

/-- A piece of a process, which goes on with what it has found. -/
abbrev Piece (α : Type) := (α → Process) → Process

/-- A piece finds `a`. If `K` holds before, nothing that it looks at changes what comes of it, and
`L` holds behind it. -/
structure Leads {α : Type} (u : ScopeTree) (K : ScopeTree → Prop) (c : Piece α) (a : α)
    (L : ScopeTree → Prop) : Prop where
  finds : ∀ next, (c next).settled u = (next a).settled u
  steady : ∀ t, t.Within u → t.Honest → K t → ∀ (next : α → Process) (P : Value → Prop),
    (∀ t', Between t t' u → L t' → Steady u false (next a) P t') → Steady u false (c next) P t

def Anything : ScopeTree → Prop := fun _ => True

/-- What is known about a scope suffices for its value. -/
def KnowsValue (u : ScopeTree) (x : ScopeId) (t : ScopeTree) : Prop :=
  t.Knows u x ∧ ∀ y ∈ u.targets x, t.Knows u y

theorem KnowsValue.mono {x : ScopeId} (h : KnowsValue u x t) (hBetween : Between t t' u) :
    KnowsValue u x t' :=
  ⟨h.1.mono hBetween.lower hBetween.upper,
    fun y hy => (h.2 y hy).mono hBetween.lower hBetween.upper⟩

variable {α β : Type} {K L M : ScopeTree → Prop} {a : α} {b : β} {c : Piece α}

theorem between_self (ht : t.Within u) (hHonest : t.Honest) : Between t t u :=
  ⟨.refl t, ht, hHonest⟩

theorem Leads.weaken (h : Leads u K c a L) {K' L' : ScopeTree → Prop} (hK : ∀ t, K' t → K t)
    (hL : ∀ t, t.Within u → t.Honest → L t → L' t) : Leads u K' c a L' where
  finds := h.finds
  steady t ht hHonest hKnown next P hNext :=
    h.steady t ht hHonest (hK t hKnown) next P fun t' hBetween hLater =>
      hNext t' hBetween (hL t' hBetween.upper hBetween.honest hLater)

theorem leads_pure (a : α) : Leads u K (fun next => next a) a K where
  finds _ := rfl
  steady t ht hHonest hKnown _ _ hNext := hNext t (between_self ht hHonest) hKnown

/-- What holds on in larger trees holds behind a piece too. -/
theorem Leads.frame (h : Leads u K c a L) (hM : ∀ t t', M t → Between t t' u → M t') :
    Leads u (fun t => K t ∧ M t) c a (fun t => L t ∧ M t) where
  finds := h.finds
  steady t ht hHonest hKnown next P hNext :=
    h.steady t ht hHonest hKnown.1 next P fun t' hBetween hLater =>
      hNext t' hBetween ⟨hLater, hM t t' hKnown.2 hBetween⟩

/-- One piece after another. -/
theorem Leads.bind {f : α → Piece β} (h : Leads u K c a L) (hf : Leads u L (f a) b M) :
    Leads u K (fun next => c fun x => f x next) b M where
  finds next := (h.finds _).trans (hf.finds next)
  steady t ht hHonest hKnown next P hNext := by
    refine h.steady t ht hHonest hKnown _ P fun t' hBetween hLater => ?_
    refine hf.steady t' hBetween.upper hBetween.honest hLater next P fun t'' hBetween' hLast => ?_
    exact hNext t'' (hBetween'.mono hBetween.lower) hLast

theorem Leads.map (h : Leads u K c a L) (f : α → β) :
    Leads u K (fun next => c fun x => next (f x)) (f a) L :=
  h.bind (f := fun x next => next (f x)) (leads_pure (f a))

/-- The piece for itself. -/
theorem Leads.alone {c : Piece Value} {v : Value} {P : Value → Prop}
    (h : Leads u K c v fun _ => P v) (ht : t.Within u) (hHonest : t.Honest) (hKnown : K t) :
    Steady u false (c .done) P t := by
  refine h.steady t ht hHonest hKnown _ P fun t' _ hv => ?_
  rw [Steady]
  exact hv

theorem Leads.settled_alone {c : Piece Value} {v : Value} (h : Leads u K c v L) :
    (c .done).settled u = v := by
  rw [h.finds, settled]

theorem leads_look {f : ScopeTree → α}
    (hf : ∀ t t', K t → Between t t' u → f t' = f u ∧ L t') :
    Leads u K (fun next => .look fun t => next (f t)) (f u) L where
  finds _ := by rw [settled]
  steady t ht hHonest hKnown next P hNext := by
    rw [Steady]
    intro t' hBetween
    obtain ⟨hSame, hLater⟩ := hf t t' hKnown hBetween
    rw [hSame]
    exact ⟨rfl, hNext t' hBetween hLater⟩

theorem leads_await (x : ScopeId) :
    Leads u K (fun next => .await x next) (u.values? x) fun t => t.Knows u x where
  finds _ := by rw [settled]
  steady t ht hHonest hKnown next P hNext := by
    rw [Steady]
    exact fun t' hBetween hKnows => hNext t' hBetween hKnows

theorem leads_awaitAll (scopes : List ScopeId) :
    Leads u K (fun next => awaitAll scopes (next ())) () fun t => ∀ x ∈ scopes, t.Knows u x where
  finds next := by
    induction scopes with
    | nil => rfl
    | cons x rest ih => rw [awaitAll, List.foldr_cons, settled]; exact ih
  steady t ht hHonest hKnown next P hNext := by
    clear hKnown
    induction scopes generalizing t with
    | nil => exact hNext t (between_self ht hHonest) (by simp)
    | cons x rest ih =>
      rw [awaitAll, List.foldr_cons, Steady]
      intro t' hBetween hKnows
      have hStep := ih t' hBetween.upper hBetween.honest
      rw [awaitAll] at hStep
      refine hStep fun t'' hBetween' hRest => ?_
      refine hNext t'' (hBetween'.mono hBetween.lower) ?_
      rw [List.forall_mem_cons]
      exact ⟨hKnows.mono hBetween'.lower hBetween'.upper, hRest⟩

theorem leads_gather {parts : List Process} {Q : Value → Prop}
    (h : ∀ p ∈ parts, ∀ t, t.Within u → t.Honest → K t → Steady u false p Q t) :
    Leads u K (fun next => .gather parts next) (parts.map (settled u))
      (fun _ => ∀ v ∈ parts.map (settled u), Q v) where
  finds next := by rw [settled, settledAll_eq]
  steady t ht hHonest hKnown next P hNext := by
    rw [Steady, settledAll_eq]
    exact ⟨Q, allSteady_iff.2 fun p hp => h p hp t ht hHonest hKnown,
      fun t' hBetween hAll => hNext t' hBetween hAll⟩

theorem leads_both {c d : Piece Value} {v w : Value} {Q : Value → Prop}
    (hc : Leads u K c v fun _ => Q v) (hd : Leads u K d w fun _ => Q w) :
    Leads u K (fun next => both (c .done) (d .done) fun x y => next (x, y)) (v, w)
      (fun _ => Q v ∧ Q w) where
  finds next := by
    rw [both, settled, settledAll, settledAll, settledAll, hc.finds, hd.finds]
    rfl
  steady t ht hHonest hKnown next P hNext := by
    rw [both, Steady, settledAll, settledAll, settledAll, hc.settled_alone, hd.settled_alone]
    refine ⟨Q, allSteady_iff.2 ?_, fun t' hBetween hAll => ?_⟩
    · simp only [List.forall_mem_cons, List.not_mem_nil, false_imp_iff, implies_true, and_true]
      exact ⟨hc.alone ht hHonest hKnown, hd.alone ht hHonest hKnown⟩
    · simp only [List.forall_mem_cons] at hAll
      exact hNext t' hBetween ⟨hAll.1, hAll.2.1⟩

/-! ## Values of scopes -/

/-- What waiting for the value of a scope goes on with when the scope is resolved. -/
def valueAfter (x : ScopeId) (resolved : Option (List Value)) : Piece Value := fun next =>
  match resolved with
  | none => next .undefined
  | some values => awaitAll (values.filterMap Value.asScope) (.look fun t => next (t.value x))

theorem leads_valueOfScope (x : ScopeId) :
    Leads u K (valueOfScope x) (u.value x) (KnowsValue u x) := by
  have hLook : Leads u (KnowsValue u x) (fun next => .look fun t => next (t.value x)) (u.value x)
      (KnowsValue u x) := by
    refine leads_look fun t t' hKnown hBetween => ?_
    have hLater := hKnown.mono hBetween
    exact ⟨value_congr hLater.1 hLater.2, hLater⟩
  refine (leads_await x).bind (f := valueAfter x) ?_
  cases hx : u.values? x with
  | none =>
    have hValue : u.value x = .undefined := by rw [value, hx]
    rw [hValue]
    refine (leads_pure Value.undefined).weaken (fun _ h => h) fun t _ _ hKnows => ⟨hKnows, ?_⟩
    simp [targets, hx]
  | some vs =>
    have hTargets : vs.filterMap Value.asScope = u.targets x := by rw [targets, hx]; rfl
    change Leads u _ (fun next => awaitAll (vs.filterMap Value.asScope)
      (.look fun t => next (t.value x))) _ _
    rw [hTargets]
    have hAwait := (leads_awaitAll (K := Anything) (u := u) (u.targets x)).frame
      (M := fun t => t.Knows u x)
      fun t t' hKnows hBetween => hKnows.mono hBetween.lower hBetween.upper
    exact (hAwait.bind (f := fun _ next => .look fun t => next (t.value x))
      (hLook.weaken (fun t h => ⟨h.2, h.1⟩) fun _ _ _ h => h)).weaken (fun t h => ⟨trivial, h⟩)
      fun _ _ _ h => h

theorem KnowsValue.isScalar {x : ScopeId} (h : KnowsValue u x t) (hHonest : t.Honest) :
    (u.value x).IsScalar := by
  rw [← value_congr h.1 h.2]
  exact hHonest.isScalar_value x

/-- A value that is read is a scalar. -/
theorem leads_scalarOfScope (x : ScopeId) :
    Leads u K (valueOfScope x) (u.value x) fun _ => (u.value x).IsScalar :=
  (leads_valueOfScope x).weaken (fun _ h => h) fun _ _ hHonest hKnows => hKnows.isScalar hHonest

theorem leads_follow (v : Value) : Leads u K (follow v) (followWith u.value v) Anything := by
  cases v with
  | scope x => exact (leads_valueOfScope x).weaken (fun _ h => h) fun _ _ _ _ => trivial
  | _ => exact (leads_pure _).weaken (fun _ h => h) fun _ _ _ _ => trivial

/-! ## Typed values -/

theorem KnowsValue.typedValue?_eq {x : ScopeId} (h : KnowsValue u x t) (ht : t.Within u)
    (hHonest : t.Honest) (hFlat : u.Flat x) : t.typedValue? x = u.typedValue? x := by
  refine typedValue?_congr ht.same h.1 h.2 fun y hy => ?_
  have hTargets : ∀ z, t.Knows u z → u.targets z = t.targets z := fun z hz => by
    rw [targets, targets, hz]
  have hPointed : y ∈ u.pointed x := by
    rw [hTargets x h.1] at hy
    rw [← ht.same.pointed]
    exact hHonest.targets_subset x hy
  have hNone : t.pointed y = [] := by rw [ht.same.pointed, hFlat y hPointed]
  rw [hTargets y (h.2 y hy), List.eq_nil_iff_forall_not_mem]
  intro z hz
  have hMem := hHonest.targets_subset y hz
  rw [hNone] at hMem
  cases hMem

/-- A scope whose value and type are waited for. -/
theorem leads_typedRead (x : ScopeId) (f : Value → Value) :
    Leads u (fun _ => u.Flat x) (fun next => valueOfScope x fun plain =>
        .look fun t => next ((t.typedValue? x).getD (f plain)))
      ((u.typedValue? x).getD (f (u.value x))) Anything := by
  have hRead := (leads_valueOfScope (K := Anything) (u := u) x).frame (M := fun _ => u.Flat x)
    fun _ _ hFlat _ => hFlat
  refine (hRead.weaken (fun _ hFlat => ⟨trivial, hFlat⟩) fun _ _ _ h => h).bind
    (f := fun plain next => .look fun t => next ((t.typedValue? x).getD (f plain))) ?_
  refine leads_look fun t t' hKnown hBetween => ⟨?_, trivial⟩
  rw [(hKnown.1.mono hBetween).typedValue?_eq hBetween.upper hBetween.honest hKnown.2]

theorem leads_typedOfScope (x : ScopeId) :
    Leads u (fun _ => u.Flat x) (typedOfScope x) ((u.typedValue? x).getD .undefined) Anything :=
  leads_typedRead x fun _ => .undefined

/-- What a value stands for as a typed argument. -/
def typedResult (u : ScopeTree) : Value → Value
  | .scope x => if u.isLive x then (u.typedValue? x).getD (u.value x) else .undefined
  | v => v

/-- If the value points to a scope, the scopes to which that one points do not point on. -/
def FlatValue (u : ScopeTree) (v : Value) : Prop := ∀ x, v = .scope x → u.Flat x

theorem leads_typed (v : Value) :
    Leads u (fun _ => FlatValue u v) (typed v) (typedResult u v) Anything := by
  cases v with
  | scope x =>
    have hLive : Leads u (fun _ => FlatValue u (.scope x))
        (fun next => .look fun t => next (t.isLive x)) (u.isLive x) fun _ => u.Flat x :=
      leads_look fun t t' hFlat hBetween => ⟨hBetween.upper.same.isLive x, hFlat x rfl⟩
    refine hLive.bind (f := fun live next =>
      if live then
        valueOfScope x fun plain => .look fun t => next ((t.typedValue? x).getD plain)
      else next .undefined) ?_
    rw [typedResult]
    split
    · exact leads_typedRead x fun plain => plain
    · exact (leads_pure _).weaken (fun _ _ => trivial) fun _ _ _ h => h
  | _ => exact (leads_pure _).weaken (fun _ _ => trivial) fun _ _ _ h => h

end Process

end FormulaOutline
