import FormulaOutline.Evaluation.Expression
import FormulaOutline.Function.Builtin
import FormulaOutline.Proofs.Evaluation.Steady

/-!
# Steady expressions

The functions that ask no provider wait for all that they look at, with one exception: a scope whose
value is read with its type may point to a scope that points on, and that last scope is not waited
for. `ScopeTree.deepReads` lists these scopes. Without any of them the evaluation of every bullet is
steady.

* `Registry.IsLocal`: the functions are some of `Get`, `Sum`, `Distance` and `Days`.
* `evaluate_call` and others: the processes that evaluate expressions.
* `leads_call`: the call of such a function; `evaluates`: an expression.
* `steady_part`: the evaluation of a part of a bullet.
-/

namespace FormulaOutline

open Formula

/-! ## What calls read with its type -/

namespace Formula.Expr

mutual

/-- The calls in an expression, with their arguments. -/
def calls : Expr → List (String × List (Argument Expr))
  | string .. => []
  | number .. => []
  | undefined _ => []
  | reference .. => []
  | name .. => []
  | field _ o f => calls o ++ calls f
  | call _ f a => (f, a) :: argumentCalls a
  | binary _ _ l r => calls l ++ calls r
  | inline _ i => calls i

def argumentCalls : List (Argument Expr) → List (String × List (Argument Expr))
  | [] => []
  | a :: rest => calls a.value ++ argumentCalls rest

end

end Formula.Expr

namespace ScopeTree

variable {t u : ScopeTree} {x y : ScopeId}

/-- The scopes that a call in a scope may read with their types: those to which its arguments point,
or the children that `Sum()` adds up. -/
def typedReads (t : ScopeTree) (x : ScopeId) (function : String) (args : List (Argument Expr)) :
    List ScopeId :=
  if function = "Get" then []
  else if args.isEmpty then t.children x
  else args.filterMap fun a => t.pointerIn? x a.value

/-- The scopes that calls in a bullet may read with their types although they point to scopes that
point on. -/
def deepReads (t : ScopeTree) : List ScopeId :=
  t.arena.entries.flatMap fun (x, r) =>
    ((r.bullet.parts.flatMap Expr.calls).flatMap fun (f, args) => t.typedReads x f args).filter
      fun y => (t.pointed y).any fun z => !(t.pointed z).isEmpty

theorem SameShape.typedReads (h : t.SameShape u) (x : ScopeId) (function : String)
    (args : List (Argument Expr)) :
    t.typedReads x function args = u.typedReads x function args := by
  have hPointer : (fun a : Argument Expr => t.pointerIn? x a.value) =
      fun a => u.pointerIn? x a.value := funext fun a => h.pointerIn? x a.value
  rw [ScopeTree.typedReads, ScopeTree.typedReads, h.children, hPointer]

theorem SameShape.flat (h : t.SameShape u) (x : ScopeId) : t.Flat x ↔ u.Flat x := by
  rw [Flat, Flat, funext h.pointed]

theorem flat_of_deepReads (h : t.deepReads = []) {r : ScopeRecord} (hr : t.record? x = some r)
    {e : Expr} (he : e ∈ r.bullet.parts) {c : String × List (Argument Expr)} (hc : c ∈ e.calls)
    (hy : y ∈ t.typedReads x c.1 c.2) : t.Flat y := by
  intro z hz
  rw [deepReads, List.flatMap_eq_nil_iff] at h
  have hNone := h (x, r) (Arena.mem_entries_iff.2 hr)
  rw [List.filter_eq_nil_iff] at hNone
  have hMem : y ∈ (r.bullet.parts.flatMap Expr.calls).flatMap fun (f, args) =>
      t.typedReads x f args :=
    List.mem_flatMap.2 ⟨c, List.mem_flatMap.2 ⟨e, he, hc⟩, hy⟩
  have hAll := hNone y hMem
  rw [List.any_eq_true, not_exists] at hAll
  have hThis := hAll z
  rw [not_and] at hThis
  simpa using hThis hz

end ScopeTree

/-! ## Scalars -/

theorem isScalar_ofInt (n : Int) : (Value.ofInt n).IsScalar := trivial

theorem isScalar_recognize (s : String) : (recognize s).IsScalar := by
  unfold recognize
  dsimp only
  repeat' split
  all_goals exact trivial

theorem isScalar_binary (op : Operator) (a b : Value) : (a.binary op b).IsScalar := by
  unfold Value.binary
  repeat' split
  all_goals exact trivial

/-- The value holds no other values. -/
def Value.IsShallow (v : Value) : Prop := v.IsScalar ∨ ∃ x, v = .scope x

theorem Value.IsShallow.isScalar_field {v : Value} (h : v.IsShallow) (name : String) :
    (v.field name).IsScalar := by
  rcases h with h | ⟨x, rfl⟩
  · cases v with
    | list => exact h.elim
    | record => exact h.elim
    | location l =>
      simp only [Value.field]
      repeat' split
      all_goals exact trivial
    | date d =>
      simp only [Value.field]
      repeat' split
      all_goals exact trivial
    | _ => exact trivial
  · exact trivial

/-- The functions that ask no provider and publish nothing. -/
def Registry.withoutProviders : Registry :=
  [Functions.get, Functions.sum, Functions.distance, Functions.days]

def Registry.IsLocal (functions : Registry) : Prop := ∀ f ∈ functions, f ∈ withoutProviders

namespace Process

open ScopeTree Functions Evaluation

variable {u t : ScopeTree} {K L : ScopeTree → Prop} {functions : Registry}

/-! ## Arguments -/

/-- All values of arguments. -/
def argumentValues (args : CallArgs) : List Value := args.positional ++ args.named.map Prod.snd

theorem mem_argumentValues_of_value? {args : CallArgs} {name : String} {i : Nat} {v : Value}
    (h : args.value? name i = some v) : v ∈ argumentValues args := by
  rw [CallArgs.value?, Option.or_eq_some_iff] at h
  rw [argumentValues, List.mem_append]
  rcases h with h | ⟨-, h⟩
  · obtain ⟨l, r, hSplit, -⟩ := List.lookup_eq_some_iff.1 h
    refine .inr (List.mem_map.2 ⟨(name, v), ?_, rfl⟩)
    rw [hSplit]
    simp
  · exact .inl (List.mem_of_getElem? h)

theorem mem_argumentValues_of_slot {args : CallArgs} {name : String} {i : Nat} {v : Value}
    (h : args.slot name i = .present v) : v ∈ argumentValues args := by
  rw [CallArgs.slot] at h
  split at h
  · cases h
  · rename_i w hw
    split at h <;> cases h
    exact mem_argumentValues_of_value? hw

theorem argumentValues_add {args : CallArgs} {n : Option String} {v w : Value}
    (h : w ∈ argumentValues (args.add n v)) : w = v ∨ w ∈ argumentValues args := by
  simp only [argumentValues, List.mem_append, List.mem_map] at h ⊢
  cases n with
  | none =>
    simp only [CallArgs.add, CallArgs.push, List.mem_append, List.mem_singleton] at h
    tauto
  | some n =>
    simp only [CallArgs.add, CallArgs.insertNamed] at h
    split at h
    · exact .inr h
    · simp only [List.mem_append, List.mem_singleton] at h
      rcases h with h | ⟨e, h | rfl, rfl⟩
      · exact .inr (.inl h)
      · exact .inr (.inr ⟨e, h, rfl⟩)
      · exact .inl rfl

theorem size_add (args : CallArgs) (n : Option String) (v : Value) :
    0 < (args.add n v).size ∧ args.size ≤ (args.add n v).size := by
  cases n with
  | none =>
    simp only [CallArgs.add, CallArgs.push, CallArgs.size, List.length_append, List.length_cons]
    omega
  | some n =>
    rw [CallArgs.add, CallArgs.insertNamed]
    split
    · rename_i hAny
      have hPos : 0 < args.named.length := by
        obtain ⟨e, he, -⟩ := List.any_eq_true.1 hAny
        exact List.length_pos_of_mem he
      rw [CallArgs.size]
      omega
    · simp only [CallArgs.size, List.length_append, List.length_cons]
      omega

theorem mem_ofList {values : List (Option String × Value)} {v : Value}
    (h : v ∈ argumentValues (.ofList values)) : v ∈ values.map Prod.snd := by
  have hFold : ∀ (l : List (Option String × Value)) (args : CallArgs),
      v ∈ argumentValues (l.foldl (fun args e => args.add e.1 e.2) args) →
        v ∈ l.map Prod.snd ∨ v ∈ argumentValues args := by
    intro l
    induction l with
    | nil => exact fun args h => .inr h
    | cons e rest ih =>
      intro args h
      rw [List.map_cons, List.mem_cons]
      rcases ih _ h with h | h
      · exact .inl (.inr h)
      · rcases argumentValues_add h with h | h
        · exact .inl (.inl h)
        · exact .inr h
  exact (hFold values .empty h).resolve_right (by simp [argumentValues, CallArgs.empty])

theorem isEmpty_ofList {values : List (Option String × Value)}
    (h : (CallArgs.ofList values).isEmpty = true) : values = [] := by
  have hFold : ∀ (l : List (Option String × Value)) (args : CallArgs),
      args.size ≤ (l.foldl (fun args e => args.add e.1 e.2) args).size := by
    intro l
    induction l with
    | nil => exact fun args => Nat.le_refl _
    | cons e rest ih => exact fun args => Nat.le_trans (size_add args e.1 e.2).2 (ih _)
  cases values with
  | nil => rfl
  | cons e rest =>
    have hPos := Nat.lt_of_lt_of_le (size_add .empty e.1 e.2).1 (hFold rest _)
    rw [CallArgs.isEmpty, decide_eq_true_eq, CallArgs.ofList, List.foldl_cons] at h
    exact (Nat.ne_of_gt hPos h).elim

theorem mem_of_mem_bindArguments {args : List (Argument Expr)} {values : List Value} {v : Value}
    (h : v ∈ argumentValues (bindArguments args values)) : v ∈ values := by
  obtain ⟨e, he, rfl⟩ := List.mem_map.1 (mem_ofList h)
  exact (List.of_mem_zip he).2

theorem eq_nil_of_isEmpty_bindArguments {args : List (Argument Expr)} {values : List Value}
    (hLength : values.length = args.length) (h : (bindArguments args values).isEmpty = true) :
    args = [] := by
  have hZip := congrArg List.length (isEmpty_ofList h)
  rw [List.length_zip, List.length_map, hLength, Nat.min_self] at hZip
  exact List.length_eq_zero_iff.1 hZip

/-! ## Equations -/

section Equations

variable (functions : Registry) (x : ScopeId)

theorem callByName_of_none {name : String} (h : functions.find? name = none) (args : CallArgs) :
    callByName functions x name args = fun next => next .null := by
  funext next
  rw [callByName, h]

theorem callByName_of_some {name : String} {f : Function} (h : functions.find? name = some f)
    (args : CallArgs) : callByName functions x name args = fun next =>
      f.call args x fun outcome => next (outcomeValue outcome) := by
  funext next
  rw [callByName, h]

theorem evaluate_field (s : Span) (o f : Expr) : evaluate functions x (.field s o f) = fun next =>
    both (evaluate functions x o .done) (evaluate functions x f .done) fun a b =>
      callByName functions x fieldFunction ⟨[a, b], []⟩ next := by
  funext next
  rw [evaluate]

theorem evaluate_binary (s : Span) (op : Operator) (l r : Expr) :
    evaluate functions x (.binary s op l r) = fun next =>
      both (evaluate functions x l .done) (evaluate functions x r .done) fun a b =>
        both (follow a .done) (follow b .done) fun a b => next (a.binary op b) := by
  funext next
  rw [evaluate]

theorem evaluateArguments_eq (args : List (Argument Expr)) :
    evaluateArguments functions x args = args.map fun a => evaluate functions x a.value .done := by
  induction args with
  | nil => rfl
  | cons a rest ih => rw [evaluateArguments, ih, List.map_cons]

theorem evaluate_call (s : Span) (name : String) (args : List (Argument Expr)) :
    evaluate functions x (.call s name args) = fun next =>
      .gather (args.map fun a => evaluate functions x a.value .done) fun values =>
        callByName functions x name (bindArguments args values) next := by
  funext next
  rw [evaluate, evaluateArguments_eq]

theorem evaluate_inline (s : Span) (i : Expr) :
    evaluate functions x (.inline s i) = evaluate functions x i := by
  funext next
  rw [evaluate]

end Equations

theorem name_of_find? {functions : Registry} {name : String} {f : Function}
    (h : functions.find? name = some f) : f.name = name := by
  have hFound := List.find?_some h
  rwa [beq_iff_eq] at hFound

/-! ## Functions -/

/-- The scopes that a function may read with their types do not point to scopes that point on. -/
structure ReadsFlat (u : ScopeTree) (scope : ScopeId) (args : CallArgs) : Prop where
  arguments : ∀ v ∈ argumentValues args, FlatValue u v
  children : args.isEmpty = true → ∀ x ∈ u.children scope, u.Flat x

theorem leads_withSlot (args : CallArgs) (name : String) (i : Nat) :
    ∃ r, Leads u (fun _ => ∀ v ∈ argumentValues args, FlatValue u v) (withSlot args name i) r
      fun _ => ∀ v ∈ argumentValues args, FlatValue u v := by
  cases hSlot : args.slot name i with
  | absent =>
    have hNone : withSlot args name i = fun next => next none := by
      funext next
      rw [withSlot, hSlot]
    exact ⟨none, hNone ▸ leads_pure none⟩
  | blank =>
    have hNone : withSlot args name i = fun next => next none := by
      funext next
      rw [withSlot, hSlot]
    exact ⟨none, hNone ▸ leads_pure none⟩
  | present v =>
    have hSome : withSlot args name i = fun next => typed v fun resolved =>
        next (if resolved.isUndefined then none else some resolved) := by
      funext next
      rw [withSlot, hSlot]
    have hMem := mem_argumentValues_of_slot hSlot
    have hTyped := (leads_typed (u := u) v).frame
      (M := fun _ => ∀ v ∈ argumentValues args, FlatValue u v) fun _ _ h _ => h
    rw [hSome]
    exact ⟨_, (hTyped.weaken (fun _ h => ⟨h v hMem, h⟩) fun _ _ _ h => h.2).map
      fun resolved => if resolved.isUndefined then none else some resolved⟩

/-- What a function goes on with when it has read its two declared arguments. -/
def pairOf {α : Type} (function first second : String) (read : Value → Option α) :
    Option Value → Option Value → Except CallError (Option (α × α))
  | some a, some b => do
      let x ← expect function first read a
      let y ← expect function second read b
      .ok (some (x, y))
  | _, _ => .ok none

theorem withPair_eq {α : Type} (function first second : String) (read : Value → Option α)
    (args : CallArgs) : withPair function first second read args = fun next =>
      withSlot args first 0 fun a => withSlot args second 1 fun b =>
        next (pairOf function first second read a b) := by
  funext next
  rw [withPair]
  congr 1
  funext a
  congr 1
  funext b
  cases a <;> cases b <;> rfl

theorem leads_withPair {α : Type} (function first second : String) (read : Value → Option α)
    (args : CallArgs) :
    ∃ r, Leads u (fun _ => ∀ v ∈ argumentValues args, FlatValue u v)
      (withPair function first second read args) r Anything := by
  obtain ⟨a, ha⟩ := leads_withSlot (u := u) args first 0
  obtain ⟨b, hb⟩ := leads_withSlot (u := u) args second 1
  have hPair := ha.bind (f := fun a next => withSlot args second 1 fun b =>
      next (pairOf function first second read a b))
    (hb.map (pairOf function first second read a))
  rw [withPair_eq]
  exact ⟨_, hPair.weaken (fun _ h => h) fun _ _ _ _ => trivial⟩

/-- A function that works on a pair of values. -/
theorem leads_onPair {α : Type} (function first second : String) (read : Value → Option α)
    (args : CallArgs) (finish : (Outcome → Process) → Option (α × α) → Process)
    (hFinish : ∀ ends, ∃ v : Value, v.IsScalar ∧ ∀ next, finish next ends = next (.ok v)) :
    ∃ o, Leads u (fun _ => ∀ v ∈ argumentValues args, FlatValue u v)
      (fun next => withPair function first second read args fun ends =>
        orFail ends next (finish next)) o fun _ => (outcomeValue o).IsScalar := by
  obtain ⟨r, hr⟩ := leads_withPair (u := u) function first second read args
  have hLast : ∃ o : Outcome, (outcomeValue o).IsScalar ∧
      ∀ next, orFail r next (finish next) = next o := by
    cases r with
    | error e => exact ⟨.error e, trivial, fun _ => rfl⟩
    | ok ends =>
      obtain ⟨v, hScalar, hSame⟩ := hFinish ends
      exact ⟨.ok v, hScalar, hSame⟩
  obtain ⟨o, hScalar, hSame⟩ := hLast
  refine ⟨o, hr.bind (f := fun ends next => orFail ends next (finish next)) ?_⟩
  rw [funext hSame]
  exact (leads_pure o).weaken (fun _ h => h) fun _ _ _ _ => hScalar

theorem leads_distance (args : CallArgs) (scope : ScopeId) :
    ∃ o, Leads u (fun _ => ∀ v ∈ argumentValues args, FlatValue u v) (distance.call args scope) o
      fun _ => (outcomeValue o).IsScalar :=
  leads_onPair "Distance" "from" "to" Value.asLocation args _ fun ends => by
      rcases ends with _ | ⟨start, stop⟩
      · exact ⟨.missingArguments, trivial, fun _ => rfl⟩
      · exact ⟨.number (Geo.distance start stop), trivial, fun _ => rfl⟩

theorem leads_days (args : CallArgs) (scope : ScopeId) :
    ∃ o, Leads u (fun _ => ∀ v ∈ argumentValues args, FlatValue u v) (days.call args scope) o
      fun _ => (outcomeValue o).IsScalar :=
  leads_onPair "Days" "from" "to" Value.asDate args _ fun ends => by
      rcases ends with _ | ⟨start, stop⟩
      · exact ⟨.missingArguments, trivial, fun _ => rfl⟩
      · exact ⟨.ofInt (stop.dayNumber - start.dayNumber), isScalar_ofInt _, fun _ => rfl⟩

/-- What a field of a scope is read from: its child with that key, or else its value. -/
def propertyOf (target : ScopeId) (field : String) (seen : Bool × Option ScopeId) :
    Piece Outcome := fun next =>
  if seen.1 then
    match seen.2 with
    | some child => valueOfScope child fun v => next (.ok v)
    | none => valueOfScope target fun v => next (.ok (v.field field))
  else next (.ok .undefined)

/-- What a field is taken of: a scope or a plain value. -/
def fieldOf (field : String) (object : Value) : Piece Outcome := fun next =>
  match object with
  | .scope target =>
      .look fun t => propertyOf target field (t.isLive target, t.property? target field) next
  | object => next (.ok (object.field field))

theorem leads_get (args : CallArgs) (scope : ScopeId) :
    ∃ o, Leads u (fun _ => (args.positionalAt 0).IsShallow) (get.call args scope) o
      fun _ => (outcomeValue o).IsScalar := by
  set field := (args.positionalAt 1).display with hField
  have hCall : get.call args scope = fieldOf field (args.positionalAt 0) := rfl
  rw [hCall]
  generalize args.positionalAt 0 = object
  by_cases hScope : ∃ target, object = .scope target
  · obtain ⟨target, rfl⟩ := hScope
    have hLook : Leads u (fun _ => (Value.scope target).IsShallow)
        (fun next => .look fun t => next (t.isLive target, t.property? target field))
        (u.isLive target, u.property? target field) Anything :=
      leads_look fun t t' _ hBetween => ⟨Prod.ext (hBetween.upper.same.isLive target)
        (hBetween.upper.same.property? target field), trivial⟩
    have hRest : ∀ seen, ∃ o : Outcome, Leads u Anything (propertyOf target field seen) o
        fun _ => (outcomeValue o).IsScalar := by
      rintro ⟨_ | _, found⟩
      · exact ⟨.ok .undefined, (leads_pure _).weaken (fun _ h => h) fun _ _ _ _ => trivial⟩
      · cases found with
        | some child => exact ⟨.ok (u.value child), (leads_scalarOfScope child).map Except.ok⟩
        | none =>
          refine ⟨.ok ((u.value target).field field), ?_⟩
          exact ((leads_scalarOfScope target).map fun v => Except.ok (v.field field)).weaken
            (fun _ h => h) fun _ _ _ h => Value.IsShallow.isScalar_field (.inl h) field
    obtain ⟨o, ho⟩ := hRest _
    exact ⟨o, hLook.bind (f := propertyOf target field) ho⟩
  · refine ⟨.ok (object.field field), ?_⟩
    have hPlain : Leads u (fun _ => object.IsShallow)
        (fun next : Outcome → Process => next (.ok (object.field field)))
        (.ok (object.field field)) fun _ => (object.field field).IsScalar :=
      (leads_pure _).weaken (fun _ h => h) fun _ _ _ h => h.isScalar_field field
    cases object with
    | scope x => exact (hScope ⟨x, rfl⟩).elim
    | _ => exact hPlain

theorem leads_sum (args : CallArgs) (scope : ScopeId) :
    ∃ o, Leads u (fun _ => ReadsFlat u scope args) (sum.call args scope) o
      fun _ => (outcomeValue o).IsScalar := by
  have hCall : sum.call args scope = fun next =>
      if args.isEmpty then
        .look fun t => .gather ((t.children scope).map fun child => typedOfScope child .done)
          fun values => next (.ok (.number (sumOf values)))
      else
        .gather ((argumentValues args).map fun v => typed v .done)
          fun values => next (.ok (.number (sumOf values))) := rfl
  rw [hCall]
  split
  · rename_i hEmpty
    have hLook : Leads u (fun _ => ReadsFlat u scope args)
        (fun next => .look fun t => next (t.children scope)) (u.children scope)
        fun _ => ReadsFlat u scope args :=
      leads_look fun t t' hFlat hBetween => ⟨hBetween.upper.same.children scope, hFlat⟩
    have hGather : Leads u (fun _ => ReadsFlat u scope args)
        (fun next => .gather ((u.children scope).map fun child => typedOfScope child .done) next)
        _ _ := leads_gather (Q := fun _ => True) fun p hp t ht hHonest hFlat => by
      obtain ⟨child, hChild, rfl⟩ := List.mem_map.1 hp
      exact ((leads_typedOfScope child).weaken (fun _ h => h)
        fun _ _ _ _ => trivial).alone ht hHonest
        (hFlat.children hEmpty child hChild)
    have hSum := hGather.map fun values => (.ok (.number (sumOf values)) : Outcome)
    exact ⟨_, hLook.bind (f := fun children (next : Outcome → Process) =>
      .gather (children.map fun child => typedOfScope child .done) fun values =>
        next (.ok (.number (sumOf values)))) (hSum.weaken (fun _ h => h) fun _ _ _ _ => trivial)⟩
  · have hGather : Leads u (fun _ => ReadsFlat u scope args)
        (fun next => .gather ((argumentValues args).map fun v => typed v .done) next)
        _ _ := leads_gather (Q := fun _ => True) fun p hp t ht hHonest hFlat => by
      obtain ⟨v, hv, rfl⟩ := List.mem_map.1 hp
      exact ((leads_typed v).weaken (fun _ h => h) fun _ _ _ _ => trivial).alone ht hHonest
        (hFlat.arguments v hv)
    have hSum := hGather.map fun values => (.ok (.number (sumOf values)) : Outcome)
    exact ⟨_, hSum.weaken (fun _ h => h) fun _ _ _ _ => trivial⟩

/-! ## Calls -/

/-- What a call relies on. -/
structure Prepared (u : ScopeTree) (scope : ScopeId) (name : String) (args : CallArgs) : Prop where
  shallow : ∀ v ∈ argumentValues args, v.IsShallow
  flat : name ≠ "Get" → ReadsFlat u scope args

theorem Prepared.positionalAt {scope : ScopeId} {name : String} {args : CallArgs}
    (h : Prepared u scope name args) (i : Nat) : (args.positionalAt i).IsShallow := by
  rw [CallArgs.positionalAt]
  cases hi : args.positional[i]? with
  | none => exact .inl trivial
  | some v => exact h.shallow v (List.mem_append_left _ (List.mem_of_getElem? hi))

theorem leads_call (hLocal : functions.IsLocal) (scope : ScopeId) (name : String)
    (args : CallArgs) :
    ∃ v, Leads u (fun _ => Prepared u scope name args) (callByName functions scope name args) v
      fun _ => v.IsScalar := by
  cases hFind : functions.find? name with
  | none =>
    rw [callByName_of_none functions scope hFind]
    exact ⟨.null, (leads_pure _).weaken (fun _ h => h) fun _ _ _ _ => trivial⟩
  | some f =>
    have hName := name_of_find? hFind
    have hOutcome : ∃ o, Leads u (fun _ => Prepared u scope name args) (f.call args scope) o
        fun _ => (outcomeValue o).IsScalar := by
      have hMem := hLocal f (List.mem_of_find?_eq_some hFind)
      simp only [Registry.withoutProviders, List.mem_cons, List.not_mem_nil, or_false] at hMem
      rcases hMem with rfl | rfl | rfl | rfl
      · obtain ⟨o, ho⟩ := leads_get (u := u) args scope
        exact ⟨o, ho.weaken (fun _ h => h.positionalAt 0) fun _ _ _ h => h⟩
      all_goals have hNotGet : name ≠ "Get" := hName ▸ by decide
      · obtain ⟨o, ho⟩ := leads_sum (u := u) args scope
        exact ⟨o, ho.weaken (fun _ h => h.flat hNotGet) fun _ _ _ h => h⟩
      · obtain ⟨o, ho⟩ := leads_distance (u := u) args scope
        exact ⟨o, ho.weaken (fun _ h => (h.flat hNotGet).arguments) fun _ _ _ h => h⟩
      · obtain ⟨o, ho⟩ := leads_days (u := u) args scope
        exact ⟨o, ho.weaken (fun _ h => (h.flat hNotGet).arguments) fun _ _ _ h => h⟩
    obtain ⟨o, ho⟩ := hOutcome
    rw [callByName_of_some functions scope hFind]
    exact ⟨outcomeValue o, ho.map outcomeValue⟩

/-! ## Expressions -/

/-- What an expression in a scope evaluates to is a scalar, or the scope that it points to. -/
def Yields (u : ScopeTree) (x : ScopeId) (e : Expr) (v : Value) : Prop :=
  v.IsScalar ∨ ∃ y, u.pointerIn? x e = some y ∧ v = .scope y

theorem Yields.isShallow {x : ScopeId} {e : Expr} {v : Value} (h : Yields u x e v) :
    v.IsShallow := by
  rcases h with h | ⟨y, -, rfl⟩
  · exact .inl h
  · exact .inr ⟨y, rfl⟩

/-- The calls in an expression in a scope do not read with its type a scope that points to scopes
that point on. -/
def CallsFlat (u : ScopeTree) (x : ScopeId) (calls : List (String × List (Argument Expr))) : Prop :=
  ∀ c ∈ calls, ∀ y ∈ u.typedReads x c.1 c.2, u.Flat y

theorem prepared_bindArguments {x : ScopeId} {name : String} {args : List (Argument Expr)}
    {values : List Value} (hLength : values.length = args.length)
    (hValues : ∀ v ∈ values, ∃ a ∈ args, Yields u x a.value v)
    (hFlat : ∀ y ∈ u.typedReads x name args, u.Flat y) :
    Prepared u x name (bindArguments args values) := by
  refine ⟨fun v hv => ?_, fun hName => ⟨fun v hv y hy => ?_, fun hEmpty y hy => ?_⟩⟩
  · obtain ⟨a, -, hYields⟩ := hValues v (mem_of_mem_bindArguments hv)
    exact hYields.isShallow
  · obtain ⟨a, ha, hScalar | ⟨z, hz, hSame⟩⟩ := hValues v (mem_of_mem_bindArguments hv)
    · rw [hy] at hScalar
      exact hScalar.elim
    · rw [hy] at hSame
      cases hSame
      refine hFlat y ?_
      rw [typedReads, if_neg hName, if_neg (by simpa using List.ne_nil_of_mem ha)]
      exact List.mem_filterMap.2 ⟨a, ha, hz⟩
  · refine hFlat y ?_
    rw [typedReads, if_neg hName, eq_nil_of_isEmpty_bindArguments hLength hEmpty]
    exact hy

/-- The expression is steady in a scope. -/
def Evaluates (u : ScopeTree) (functions : Registry) (x : ScopeId) (e : Expr) : Prop :=
  ∃ v, Leads u Anything (evaluate functions x e) v fun _ => Yields u x e v

theorem evaluates_of_eq {x : ScopeId} {e : Expr} {v : Value}
    (h : evaluate functions x e = fun next => next v) (hv : v.IsScalar) :
    Evaluates u functions x e :=
  ⟨v, h ▸ (leads_pure v).weaken (fun _ h => h) fun _ _ _ _ => .inl hv⟩

theorem evaluates_reference (x : ScopeId) (s : Span) (node : NodeId) :
    Evaluates u functions x (.reference s node) := by
  have hLook : Leads u Anything (evaluate functions x (.reference s node)) _ _ :=
    leads_look (f := fun t => ((t.transcludedScope? x node).map Value.scope).getD .undefined)
      (L := Anything) fun t t' _ hBetween =>
        ⟨by rw [hBetween.upper.same.transcludedScope?], trivial⟩
  refine ⟨_, hLook.weaken (fun _ h => h) fun _ _ _ _ => ?_⟩
  cases hy : u.transcludedScope? x node with
  | none => exact .inl trivial
  | some y => exact .inr ⟨y, hy, rfl⟩

/-- What is read of a scope that was looked up, if there is one. -/
def valueOfFound (found : Option ScopeId) : Piece Value := fun next =>
  match found with
  | some target => valueOfScope target next
  | none => next .undefined

theorem evaluates_name (x : ScopeId) (s : Span) (name : String) :
    Evaluates u functions x (.name s name) := by
  have hLook : Leads u Anything (fun next => .look fun t => next (t.lookup? x name))
      (u.lookup? x name) Anything :=
    leads_look fun t t' _ hBetween => ⟨hBetween.upper.same.lookup? x name, trivial⟩
  have hRest : ∃ v : Value, Leads u Anything (valueOfFound (u.lookup? x name)) v
      fun _ => v.IsScalar := by
    cases u.lookup? x name with
    | some target => exact ⟨_, leads_scalarOfScope _⟩
    | none => exact ⟨.undefined, (leads_pure _).weaken (fun _ h => h) fun _ _ _ _ => trivial⟩
  obtain ⟨v, hv⟩ := hRest
  exact ⟨v, hLook.bind (f := valueOfFound) (hv.weaken (fun _ h => h) fun _ _ _ h => .inl h)⟩

theorem evaluates_field (hLocal : functions.IsLocal) {x : ScopeId} {o f : Expr} (s : Span)
    (ho : Evaluates u functions x o) (hf : Evaluates u functions x f) :
    Evaluates u functions x (.field s o f) := by
  obtain ⟨v, hv⟩ := ho
  obtain ⟨w, hw⟩ := hf
  obtain ⟨r, hr⟩ := leads_call (u := u) hLocal x fieldFunction ⟨[v, w], []⟩
  have hBoth := leads_both (hv.weaken (fun _ h => h) fun _ _ _ h => h.isShallow)
    (hw.weaken (fun _ h => h) fun _ _ _ h => h.isShallow)
  have hPrepared : v.IsShallow ∧ w.IsShallow → Prepared u x fieldFunction ⟨[v, w], []⟩ := by
    refine fun h => ⟨fun z hz => ?_, fun hName => (hName rfl).elim⟩
    rw [argumentValues, List.map_nil, List.append_nil, List.mem_pair] at hz
    rcases hz with rfl | rfl
    · exact h.1
    · exact h.2
  rw [Evaluates, evaluate_field]
  exact ⟨r, hBoth.bind
    (f := fun p next => callByName functions x fieldFunction ⟨[p.1, p.2], []⟩ next)
    (hr.weaken (fun _ h => hPrepared h) fun _ _ _ h => .inl h)⟩

theorem evaluates_binary {x : ScopeId} {l r : Expr} (s : Span) (op : Operator)
    (hl : Evaluates u functions x l) (hr : Evaluates u functions x r) :
    Evaluates u functions x (.binary s op l r) := by
  obtain ⟨v, hv⟩ := hl
  obtain ⟨w, hw⟩ := hr
  have hSides := leads_both (hv.weaken (fun _ h => h) fun _ _ _ h => h.isShallow)
    (hw.weaken (fun _ h => h) fun _ _ _ h => h.isShallow)
  have hFollowed := leads_both (Q := fun _ => True)
    (leads_follow (u := u) (K := fun _ => v.IsShallow ∧ w.IsShallow) v) (leads_follow w)
  have hResult := hFollowed.map fun p => p.1.binary op p.2
  rw [Evaluates, evaluate_binary]
  exact ⟨_, hSides.bind (f := fun p (next : Value → Process) =>
      both (follow p.1 .done) (follow p.2 .done) fun a b => next (a.binary op b))
    (hResult.weaken (fun _ h => h) fun _ _ _ _ => .inl (isScalar_binary op _ _))⟩

theorem evaluates_call (hLocal : functions.IsLocal) {x : ScopeId} {args : List (Argument Expr)}
    (s : Span) (name : String) (hArgs : ∀ a ∈ args, Evaluates u functions x a.value)
    (hFlat : ∀ y ∈ u.typedReads x name args, u.Flat y) :
    Evaluates u functions x (.call s name args) := by
  set parts := args.map fun a => evaluate functions x a.value .done with hParts
  have hGather : Leads u Anything (fun next => .gather parts next) (parts.map (settled u)) _ :=
    leads_gather (Q := fun v => ∃ a ∈ args, Yields u x a.value v) fun p hp t ht hHonest _ => by
      obtain ⟨a, ha, rfl⟩ := List.mem_map.1 hp
      obtain ⟨v, hv⟩ := hArgs a ha
      exact (hv.weaken (fun _ h => h) fun _ _ _ h => ⟨a, ha, h⟩).alone ht hHonest trivial
  obtain ⟨r, hr⟩ := leads_call (u := u) hLocal x name (bindArguments args (parts.map (settled u)))
  have hLength : (parts.map (settled u)).length = args.length := by
    rw [List.length_map, hParts, List.length_map]
  rw [Evaluates, evaluate_call]
  exact ⟨r, hGather.bind
    (f := fun values next => callByName functions x name (bindArguments args values) next)
    (hr.weaken (fun _ h => prepared_bindArguments hLength h hFlat) fun _ _ _ h => .inl h)⟩

mutual

/-- Every expression is steady in a scope in which its calls read no scope too deep. -/
theorem evaluates (hLocal : functions.IsLocal) (x : ScopeId) :
    (e : Expr) → CallsFlat u x e.calls → Evaluates u functions x e
  | .string _ s, _ => evaluates_of_eq (v := .text s) (funext fun _ => by rw [evaluate]) trivial
  | .number _ n, _ => evaluates_of_eq (v := .number n) (funext fun _ => by rw [evaluate]) trivial
  | .undefined _, _ => evaluates_of_eq (v := .undefined) (funext fun _ => by rw [evaluate]) trivial
  | .reference s node, _ => evaluates_reference x s node
  | .name s name, _ => evaluates_name x s name
  | .field s o f, h => by
    rw [Expr.calls, CallsFlat, List.forall_mem_append] at h
    exact evaluates_field hLocal s (evaluates hLocal x o h.1) (evaluates hLocal x f h.2)
  | .call s name args, h => by
    rw [Expr.calls, CallsFlat, List.forall_mem_cons] at h
    exact evaluates_call hLocal s name (evaluates_arguments hLocal x args h.2) h.1
  | .binary s op l r, h => by
    rw [Expr.calls, CallsFlat, List.forall_mem_append] at h
    exact evaluates_binary s op (evaluates hLocal x l h.1) (evaluates hLocal x r h.2)
  | .inline s i, h => by
    rw [Expr.calls] at h
    obtain ⟨v, hv⟩ := evaluates hLocal x i h
    rw [Evaluates, evaluate_inline]
    exact ⟨v, hv⟩

theorem evaluates_arguments (hLocal : functions.IsLocal) (x : ScopeId) :
    (args : List (Argument Expr)) → CallsFlat u x (Expr.argumentCalls args) →
      ∀ a ∈ args, Evaluates u functions x a.value
  | [], _ => by simp
  | ⟨_, e, _⟩ :: rest, h => by
    rw [Expr.argumentCalls, CallsFlat, List.forall_mem_append] at h
    rw [List.forall_mem_cons]
    exact ⟨evaluates hLocal x e h.1, evaluates_arguments hLocal x rest h.2⟩

end

/-! ## Parts of bullets -/

/-- The value is a scalar, or a scope to which a part of the scope's bullet points. -/
def FitsIn (t : ScopeTree) (x : ScopeId) (v : Value) : Prop :=
  v.IsScalar ∨ ∃ y ∈ t.pointed x, v = .scope y

/-- The evaluation of a part of a bullet is steady towards every larger tree. -/
theorem steady_part {b : ScopeTree} (hLocal : functions.IsLocal) (hDeep : b.deepReads = [])
    {x : ScopeId} {r : ScopeRecord} (hr : b.record? x = some r) {e : Expr}
    (he : e ∈ r.bullet.parts) (hb : b.SameShape t) (ht : t.Within u) (hHonest : t.Honest) :
    Steady u false (evaluatePart functions x e) (FitsIn b x) t := by
  have hSame := hb.trans ht.same
  by_cases hString : ∃ s text, e = .string s text
  · obtain ⟨s, text, rfl⟩ := hString
    rw [evaluatePart, Steady]
    exact .inl (isScalar_recognize text)
  · have hCalls : CallsFlat u x e.calls := by
      intro c hc y hy
      rw [← hSame.typedReads] at hy
      exact (hSame.flat y).1 (flat_of_deepReads hDeep hr he hc hy)
    obtain ⟨v, hv⟩ := evaluates hLocal x e hCalls
    have hEq : evaluatePart functions x e = evaluate functions x e .done := by
      cases e with
      | string s text => exact (hString ⟨s, text, rfl⟩).elim
      | _ => rfl
    rw [hEq]
    refine (hv.weaken (fun _ h => h) fun _ _ _ h => ?_).alone ht hHonest trivial
    rcases h with h | ⟨y, hy, rfl⟩
    · exact .inl h
    · refine .inr ⟨y, ?_, rfl⟩
      rw [← hSame.pointerIn?] at hy
      rw [pointed, hr]
      exact List.mem_filterMap.2 ⟨e, he, hy⟩

end Process

end FormulaOutline
