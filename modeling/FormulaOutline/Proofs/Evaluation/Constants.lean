import FormulaOutline.Document.Outline
import FormulaOutline.Function.Builtin
import FormulaOutline.Proofs.Evaluation.Expressions
import FormulaOutline.Proofs.Session.Polling
import FormulaOutline.Session.Run

/-!
# Constant expressions

An expression without references and names is constant. Its value is the same everywhere, with one
exception: a call of `Sum` without arguments adds up the children of the scope that it is evaluated
in. In a session in which all scopes have their values nothing has to be waited for, so what a process
looks at and waits for is found at once, and the session stays as it is.

* `Session.Settled`: all scopes have their values, and there are no providers to ask.
* `Instant`: a piece of a process finds something at once, and changes nothing.
* `instant_valueOfScope`, `instant_typedOfScope`: values of scopes.
* `instant_withReport`: a provider that is not there.
* `ScopeTree.sumBelow`: what `Sum` finds below a scope.
* `exists_instant_callByName`: a built-in function on scalars has one outcome everywhere.
* `hasValue_of_isConstant`: the value of a constant expression in many scopes of many sessions.
* `finish_expression_of_isConstant`: two evaluations of a constant expression.
-/

namespace FormulaOutline

/-! ## Settled sessions -/

/-- All enabled scopes have their values. The functions are the built-in ones, and there are no
providers that they could ask. -/
structure Session.Settled (s : Session) : Prop where
  functions : s.functions = .builtin false
  providers : s.providers = .empty
  unresolved : s.unresolved = []

namespace Process

open ScopeTree Session Functions

variable {s : Session} {α β : Type} {a : α} {b : β} {c : Piece α}

/-- The piece finds `a` at once and leaves the session as it is. -/
def Instant (s : Session) (c : Piece α) (a : α) : Prop :=
  ∀ run next, poll run (c next) s = poll run (next a) s

/-! ## Pieces -/

theorem instant_pure (a : α) : Instant s (fun next => next a) a := fun _ _ => rfl

/-- One piece after another. -/
theorem Instant.bind {f : α → Piece β} (h : Instant s c a) (hf : Instant s (f a) b) :
    Instant s (fun next => c fun x => f x next) b :=
  fun run next => (h run _).trans (hf run next)

theorem Instant.map (h : Instant s c a) (f : α → β) :
    Instant s (fun next => c fun x => next (f x)) (f a) :=
  h.bind (f := fun x next => next (f x)) (instant_pure (f a))

/-- The piece for itself. -/
theorem Instant.alone {c : Piece Value} {v : Value} (h : Instant s c v) (run : Option Publisher) :
    poll run (c .done) s = (.done v, s) := by
  rw [h, poll]

theorem instant_look (f : ScopeTree → α) :
    Instant s (fun next => .look fun t => next (f t)) (f s.tree) := fun run next => by
  rw [poll]

theorem instant_gather {parts : List Process} {values : List Value}
    (h : List.Forall₂ (fun p v => ∀ run, poll run p s = (.done v, s)) parts values) :
    Instant s (.gather parts) values := by
  intro run next
  have hParts : pollAll run parts s = (values.map .done, s) := by
    induction h with
    | nil => rfl
    | cons hFirst _ ih =>
      rw [pollAll, hFirst run]
      dsimp only
      rw [ih, List.map_cons]
  rw [poll, hParts]
  dsimp only
  rw [values?_eq_some_iff.2 rfl]

/-- Pieces side by side, one for each element of a list. -/
theorem instant_gather_map {ι : Type} {l : List ι} {c : ι → Piece Value} {v : ι → Value}
    (h : ∀ i ∈ l, Instant s (c i) (v i)) :
    Instant s (.gather (l.map fun i => c i .done)) (l.map v) := by
  refine instant_gather ?_
  rw [List.forall₂_map_left_iff, List.forall₂_map_right_iff, List.forall₂_same]
  exact fun i hi => (h i hi).alone

theorem instant_both {c d : Piece Value} {v w : Value} (hc : Instant s c v) (hd : Instant s d w) :
    Instant s (fun next => both (c .done) (d .done) fun x y => next (x, y)) (v, w) := by
  intro run next
  exact instant_gather (.cons hc.alone (.cons hd.alone .nil)) run _

/-! ## Scopes -/

theorem isDisabled_of_settled (h : s.Settled) {x : ScopeId} (hNone : s.tree.values? x = none) :
    s.tree.isDisabled x = true := by
  cases hr : s.tree.record? x with
  | none => rw [isDisabled, hr]; rfl
  | some r =>
    have hFilter := List.map_eq_nil_iff.1 h.unresolved
    rw [List.filter_eq_nil_iff] at hFilter
    have hEnded : r.disabled = true ∨ r.state.values? ≠ none := by
      have hEntry := hFilter (x, r) (Arena.mem_entries_iff.2 hr)
      rw [Bool.and_eq_true, not_and_or] at hEntry
      exact hEntry.imp (by simp) fun hOpen => by simpa [EvalState.isResolved] using hOpen
    rw [ScopeTree.values?, state, hr, Option.map_some, Option.getD_some] at hNone
    rw [hNone] at hEnded
    rw [isDisabled, hr]
    exact hEnded.resolve_right fun hSome => hSome rfl

theorem instant_await (h : s.Settled) (x : ScopeId) : Instant s (.await x) (s.tree.values? x) := by
  intro run next
  rw [poll]
  cases hx : s.tree.values? x with
  | none =>
    dsimp only
    rw [if_pos (isDisabled_of_settled h hx)]
  | some vs => rfl

theorem instant_awaitAll (h : s.Settled) (scopes : List ScopeId) :
    Instant s (fun next => awaitAll scopes (next ())) () := by
  intro run next
  induction scopes with
  | nil => rfl
  | cons x rest ih =>
    exact (instant_await h x run fun _ => awaitAll rest (next ())).trans ih

theorem instant_valueOfScope (h : s.Settled) (x : ScopeId) :
    Instant s (valueOfScope x) (s.tree.value x) := by
  refine (instant_await h x).bind (f := valueAfter x) ?_
  cases hx : s.tree.values? x with
  | none =>
    have hValue : s.tree.value x = .undefined := by rw [value, hx]
    rw [hValue]
    exact instant_pure _
  | some vs =>
    exact (instant_awaitAll h _).bind (f := fun _ next => .look fun t => next (t.value x))
      (instant_look _)

theorem instant_typedOfScope (h : s.Settled) (x : ScopeId) :
    Instant s (typedOfScope x) ((s.tree.typedValue? x).getD .undefined) :=
  (instant_valueOfScope h x).bind
    (f := fun _ next => .look fun t => next ((t.typedValue? x).getD .undefined)) (instant_look _)

/-! ## Providers -/

/-- The error for a query that nobody can answer. -/
def notConfigured (query : Query) : ProviderError := .notConfigured query.kind.name

theorem ask_empty (m : Cache.Moment) (query : Query) :
    Directory.ask .empty m query = (.error (notConfigured query), .empty) := by
  cases query <;> rfl

theorem instant_withReport (h : s.Settled) (query : Query)
    (found : (Outcome → Process) → query.Report → Process) :
    Instant s (fun next => withReport query next (found next))
      (.error (.provider (notConfigured query))) := by
  intro run next
  have hSame : { s with providers := .empty } = s := by rw [← h.providers]
  dsimp only [withReport]
  rw [poll, h.providers, ask_empty]
  dsimp only
  rw [hSame]

/-! ## Processes beside the evaluations -/

theorem finish_of_instant {c : Piece Value} {v : Value} (h : Instant s c v) :
    s.finish (c .done) = (v, s) := by
  rw [finish, patience, finishWithin, h.alone]
  rfl

end Process

open Formula

/-- The sum of the children of a scope, as far as they are numbers. -/
def ScopeTree.sumBelow (t : ScopeTree) (x : ScopeId) : Float :=
  Functions.sumOf ((t.children x).map fun child => (t.typedValue? child).getD .undefined)

namespace Process

open ScopeTree Session Functions Evaluation

variable {s : Session} {x : ScopeId} {args : CallArgs}

/-! ## Declared arguments that are scalars -/

/-- All values of the arguments are scalars. -/
def AreScalar (args : CallArgs) : Prop := ∀ v ∈ argumentValues args, v.IsScalar

theorem typed_of_isScalar {v : Value} (h : v.IsScalar) : typed v = fun next => next v := by
  cases v with
  | scope => exact h.elim
  | _ => rfl

theorem follow_of_isScalar {v : Value} (h : v.IsScalar) : follow v = fun next => next v := by
  cases v with
  | scope => exact h.elim
  | _ => rfl

theorem exists_withSlot (h : AreScalar args) (name : String) (i : Nat) :
    ∃ r : Option Value, withSlot args name i = fun next => next r := by
  cases hSlot : args.slot name i with
  | absent => exact ⟨none, funext fun next => by rw [withSlot, hSlot]⟩
  | blank => exact ⟨none, funext fun next => by rw [withSlot, hSlot]⟩
  | present v =>
    have hMem := mem_argumentValues_of_slot hSlot
    refine ⟨if v.isUndefined then none else some v, funext fun next => ?_⟩
    rw [withSlot, hSlot]
    dsimp only
    rw [typed_of_isScalar (h v hMem)]

theorem exists_withPair {α : Type} (h : AreScalar args) (function first second : String)
    (read : Value → Option α) :
    ∃ r, withPair function first second read args = fun next => next r := by
  obtain ⟨a, ha⟩ := exists_withSlot h first 0
  obtain ⟨b, hb⟩ := exists_withSlot h second 1
  exact ⟨pairOf function first second read a b, by rw [withPair_eq, ha, hb]⟩

/-! ## Functions -/

/-- The call has one outcome in all scopes of all settled sessions. -/
def Fixed (call : ScopeId → Piece Outcome) : Prop :=
  ∃ o : Outcome, (outcomeValue o).IsScalar ∧ ∀ s x, s.Settled → Instant s (call x) o

theorem fixed_pure {call : ScopeId → Piece Outcome} {o : Outcome}
    (h : ∀ x, call x = fun next => next o) (hScalar : (outcomeValue o).IsScalar) : Fixed call :=
  ⟨o, hScalar, fun _ x _ => h x ▸ instant_pure o⟩

/-- A call that lacks arguments. -/
theorem fixed_missing : Fixed fun _ next => next (.ok .missingArguments) :=
  fixed_pure (fun _ => rfl) trivial

/-- A report that is asked for cannot be given. -/
theorem fixed_withReport {query : Query}
    (found : ScopeId → (Outcome → Process) → query.Report → Process) :
    Fixed fun x next => withReport query next (found x next) :=
  ⟨.error (.provider (notConfigured query)), trivial,
    fun _ x h => instant_withReport h query (found x)⟩

/-- Going on with a result, or ending with its error. -/
theorem fixed_orFail {α : Type} {r : Except CallError α}
    {go : α → ScopeId → Piece Outcome} (h : ∀ a, Fixed (go a)) :
    Fixed fun x next => orFail r next fun a => go a x next := by
  cases r with
  | error e => exact fixed_pure (o := .error e) (fun _ => rfl) trivial
  | ok a => exact h a

section Calls

variable (h : AreScalar args)
include h

/-- A function that works on a pair of values. -/
theorem fixed_onPair {α : Type} (function first second : String) (read : Value → Option α)
    {go : Option (α × α) → ScopeId → Piece Outcome} (hGo : ∀ ends, Fixed (go ends)) :
    Fixed fun x next => withPair function first second read args fun ends =>
      orFail ends next fun ends => go ends x next := by
  obtain ⟨r, hr⟩ := exists_withPair h function first second read
  rw [hr]
  exact fixed_orFail hGo

theorem fixed_get : Fixed (get.call args) := by
  have hObject : (args.positionalAt 0).IsScalar := by
    rw [CallArgs.positionalAt]
    cases hFirst : args.positional[0]? with
    | none => trivial
    | some v => exact h v (List.mem_append_left _ (List.mem_of_getElem? hFirst))
  refine fixed_pure (o := .ok ((args.positionalAt 0).field (args.positionalAt 1).display))
    (fun x => ?_) (Value.IsShallow.isScalar_field (.inl hObject) _)
  have hCall : get.call args x =
      fieldOf (args.positionalAt 1).display (args.positionalAt 0) := rfl
  rw [hCall]
  generalize args.positionalAt 0 = object at hObject
  cases object with
  | scope => exact hObject.elim
  | _ => rfl

theorem fixed_sum (hSome : args.isEmpty = false) : Fixed (sum.call args) := by
  refine ⟨.ok (.number (sumOf (argumentValues args))), trivial, fun s x _ => ?_⟩
  have hCall : sum.call args x = fun next =>
      .gather ((argumentValues args).map fun v => typed v .done) fun values =>
        next (.ok (.number (sumOf values))) := by
    funext next
    change (if args.isEmpty then _ else _) = _
    rw [hSome]
    rfl
  have hTyped : ∀ v ∈ argumentValues args, Instant s (typed v) v := fun v hv =>
    typed_of_isScalar (h v hv) ▸ instant_pure v
  have hGather := (instant_gather_map hTyped).map fun values =>
    (.ok (.number (sumOf values)) : Outcome)
  rw [List.map_id'] at hGather
  exact hCall ▸ hGather

theorem fixed_distance : Fixed (distance.call args) :=
  fixed_onPair h "Distance" "from" "to" Value.asLocation fun ends => by
    rcases ends with _ | ⟨start, stop⟩
    · exact fixed_missing
    · exact fixed_pure (o := .ok (.number (Geo.distance start stop))) (fun _ => rfl) trivial

theorem fixed_days : Fixed (days.call args) :=
  fixed_onPair h "Days" "from" "to" Value.asDate fun ends => by
    rcases ends with _ | ⟨start, stop⟩
    · exact fixed_missing
    · exact fixed_pure (o := .ok (.ofInt (stop.dayNumber - start.dayNumber))) (fun _ => rfl)
        (isScalar_ofInt _)

theorem fixed_route : Fixed (route.call args) :=
  fixed_onPair h "Route" "from" "to" Value.asLocation fun ends => by
    rcases ends with _ | ⟨start, stop⟩
    · exact fixed_missing
    · exact fixed_withReport _

theorem fixed_place : Fixed (place.call args) := by
  obtain ⟨r, hr⟩ := exists_withSlot h "id" 0
  dsimp only [place]
  rw [hr]
  cases r with
  | none => exact fixed_missing
  | some id =>
    dsimp only
    split
    · exact fixed_missing
    · exact fixed_withReport _

theorem fixed_weather : Fixed ((weather false).call args) := by
  obtain ⟨location, hLocation⟩ := exists_withSlot h "location" 0
  obtain ⟨date, hDate⟩ := exists_withSlot h "date" 1
  dsimp only [weather]
  rw [hLocation, hDate]
  cases location with
  | none => exact fixed_missing
  | some location =>
    refine fixed_orFail fun location => fixed_orFail fun date => ?_
    exact fixed_pure (o := .error (.provider (.notConfigured ProviderKind.weather.name)))
      (fun _ => rfl) trivial

theorem fixed_flight : Fixed (flight.call args) := by
  obtain ⟨number, hNumber⟩ := exists_withSlot h "number" 0
  obtain ⟨date, hDate⟩ := exists_withSlot h "date" 1
  dsimp only [flight]
  rw [hNumber, hDate]
  cases number with
  | none => exact fixed_missing
  | some number =>
    exact fixed_orFail fun number => fixed_orFail fun date => fixed_withReport _

/-- A built-in function on scalars has one outcome everywhere, unless it is `Sum` without
arguments. -/
theorem fixed_builtin {f : Function} (hf : f ∈ Registry.builtin false)
    (hSome : f.name = "Sum" → args.isEmpty = false) : Fixed (f.call args) := by
  simp only [Registry.builtin, List.mem_cons, List.not_mem_nil, or_false] at hf
  rcases hf with rfl | rfl | rfl | rfl | rfl | rfl | rfl | rfl
  · exact fixed_get h
  · exact fixed_sum h (hSome rfl)
  · exact fixed_distance h
  · exact fixed_days h
  · exact fixed_route h
  · exact fixed_place h
  · exact fixed_weather h
  · exact fixed_flight h

end Calls

theorem instant_sumBelow (h : s.Settled) (x : ScopeId) (hNone : args.isEmpty = true) :
    Instant s (sum.call args x) (.ok (.number (s.tree.sumBelow x))) := by
  have hCall : sum.call args x = fun next => .look fun t =>
      .gather ((t.children x).map fun child => typedOfScope child .done) fun values =>
        next (.ok (.number (sumOf values))) := by
    funext next
    change (if args.isEmpty then _ else _) = _
    rw [hNone]
    rfl
  have hGather := (instant_gather_map (l := s.tree.children x) fun child _ =>
    instant_typedOfScope h child).map fun values => (.ok (.number (sumOf values)) : Outcome)
  rw [hCall]
  exact (instant_look fun t => t.children x).bind (f := fun children (next : Outcome → Process) =>
    .gather (children.map fun child => typedOfScope child .done) fun values =>
      next (.ok (.number (sumOf values)))) hGather

/-! ## Expressions -/

/-- Some scopes in settled sessions. -/
def SettledSites (sites : Session → ScopeId → Prop) : Prop := ∀ s x, sites s x → s.Settled

/-- The children of the scopes have the same sum. -/
def SumsAgree (sites : Session → ScopeId → Prop) : Prop :=
  ∃ total, ∀ s x, sites s x → s.tree.sumBelow x = total

/-- The expression has one value in all the scopes, a scalar. -/
def HasValue (sites : Session → ScopeId → Prop) (e : Expr) : Prop :=
  ∃ v : Value, v.IsScalar ∧
    ∀ s x, sites s x → Instant s (evaluate (.builtin false) x e) v

variable {sites : Session → ScopeId → Prop}

/-- A call by name on scalars, of which `Sum` without arguments reads the children of the scopes. -/
theorem exists_instant_callByName (hSites : SettledSites sites) (name : String)
    (h : AreScalar args) (hSum : name = "Sum" → args.isEmpty = true → SumsAgree sites) :
    ∃ v : Value, v.IsScalar ∧
      ∀ s x, sites s x → Instant s (callByName (.builtin false) x name args) v := by
  cases hFind : (Registry.builtin false).find? name with
  | none =>
    refine ⟨.null, trivial, fun s x _ => ?_⟩
    rw [callByName_of_none _ x hFind]
    exact instant_pure _
  | some f =>
    have hName := name_of_find? hFind
    have hMem : f ∈ Registry.builtin false := List.mem_of_find?_eq_some hFind
    simp only [callByName_of_some _ _ hFind]
    by_cases hBelow : name = "Sum" ∧ args.isEmpty = true
    · obtain ⟨total, hTotal⟩ := hSum hBelow.1 hBelow.2
      have hFunction : f = sum := by
        rw [hBelow.1] at hFind
        exact (Option.some.inj hFind).symm
      refine ⟨.number total, trivial, fun s x hx => ?_⟩
      have hInstant := (instant_sumBelow (hSites s x hx) x hBelow.2).map outcomeValue
      rwa [hTotal s x hx, ← hFunction] at hInstant
    · have hSome : f.name = "Sum" → args.isEmpty = false := by
        intro hIs
        rw [← Bool.not_eq_true]
        exact fun hEmpty => hBelow ⟨hName ▸ hIs, hEmpty⟩
      obtain ⟨o, hScalar, hInstant⟩ := fixed_builtin h hMem hSome
      exact ⟨outcomeValue o, hScalar, fun s x hx =>
        (hInstant s x (hSites s x hx)).map outcomeValue⟩

theorem hasValue_of_eq {e : Expr} {v : Value} (hScalar : v.IsScalar)
    (h : ∀ x, evaluate (.builtin false) x e = fun next => next v) : HasValue sites e :=
  ⟨v, hScalar, fun _ x _ => h x ▸ instant_pure v⟩

theorem hasValue_field (hSites : SettledSites sites) {o f : Expr} (span : Span)
    (ho : HasValue sites o) (hf : HasValue sites f) : HasValue sites (.field span o f) := by
  obtain ⟨v, hv, hObject⟩ := ho
  obtain ⟨w, hw, hField⟩ := hf
  have hScalar : AreScalar ⟨[v, w], []⟩ := by
    intro z hz
    rw [argumentValues, List.map_nil, List.append_nil, List.mem_pair] at hz
    rcases hz with rfl | rfl
    · exact hv
    · exact hw
  obtain ⟨r, hr, hGet⟩ := exists_instant_callByName hSites fieldFunction hScalar
    fun hName => absurd hName (by decide)
  refine ⟨r, hr, fun s x hx => ?_⟩
  rw [evaluate_field]
  exact (instant_both (hObject s x hx) (hField s x hx)).bind
    (f := fun p next => callByName (.builtin false) x fieldFunction ⟨[p.1, p.2], []⟩ next)
    (hGet s x hx)

theorem hasValue_binary {l r : Expr} (span : Span) (op : Operator) (hl : HasValue sites l)
    (hr : HasValue sites r) : HasValue sites (.binary span op l r) := by
  obtain ⟨v, hv, hLeft⟩ := hl
  obtain ⟨w, hw, hRight⟩ := hr
  refine ⟨v.binary op w, isScalar_binary op v w, fun s x hx => ?_⟩
  have hFollow : ∀ {z : Value}, z.IsScalar → Instant s (follow z) z := fun hz =>
    follow_of_isScalar hz ▸ instant_pure _
  rw [evaluate_binary]
  exact (instant_both (hLeft s x hx) (hRight s x hx)).bind
    (f := fun p (next : Value → Process) =>
      both (follow p.1 .done) (follow p.2 .done) fun a b => next (a.binary op b))
    ((instant_both (hFollow hv) (hFollow hw)).map fun p => p.1.binary op p.2)

/-- The arguments of a call, side by side. -/
theorem exists_values {args : List (Argument Expr)} (h : ∀ a ∈ args, HasValue sites a.value) :
    ∃ values : List Value, values.length = args.length ∧ (∀ v ∈ values, v.IsScalar) ∧
      ∀ s x, sites s x →
        List.Forall₂ (fun p v => ∀ run, poll run p s = (.done v, s))
          (args.map fun a => evaluate (.builtin false) x a.value .done) values := by
  induction args with
  | nil => exact ⟨[], rfl, List.forall_mem_nil _, fun _ _ _ => .nil⟩
  | cons a rest ih =>
    rw [List.forall_mem_cons] at h
    obtain ⟨v, hv, hFirst⟩ := h.1
    obtain ⟨values, hLength, hScalars, hValues⟩ := ih h.2
    refine ⟨v :: values, by simp [hLength], List.forall_mem_cons.2 ⟨hv, hScalars⟩, ?_⟩
    exact fun s x hx => .cons (hFirst s x hx).alone (hValues s x hx)

theorem hasValue_call (hSites : SettledSites sites) {args : List (Argument Expr)} (span : Span)
    (name : String) (hArgs : ∀ a ∈ args, HasValue sites a.value)
    (hSum : name = "Sum" → args = [] → SumsAgree sites) :
    HasValue sites (.call span name args) := by
  obtain ⟨values, hLength, hScalars, hValues⟩ := exists_values hArgs
  have hBound : AreScalar (bindArguments args values) := fun v hv =>
    hScalars v (mem_of_mem_bindArguments hv)
  obtain ⟨r, hr, hCall⟩ := exists_instant_callByName hSites name hBound
    fun hName h => hSum hName (eq_nil_of_isEmpty_bindArguments hLength h)
  refine ⟨r, hr, fun s x hx => ?_⟩
  rw [evaluate_call]
  exact (instant_gather (hValues s x hx)).bind
    (f := fun values next => callByName (.builtin false) x name (bindArguments args values) next)
    (hCall s x hx)

mutual

/-- A constant expression has one value everywhere, if all that its calls of `Sum` without arguments
find is the same. -/
theorem hasValue_of_isConstant (hSites : SettledSites sites) : (e : Expr) → e.isConstant = true →
    (("Sum", []) ∈ e.calls → SumsAgree sites) → HasValue sites e
  | .string _ s, _, _ => hasValue_of_eq (v := .text s) trivial fun _ => funext fun _ => by
    rw [evaluate]
  | .number _ n, _, _ => hasValue_of_eq (v := .number n) trivial fun _ => funext fun _ => by
    rw [evaluate]
  | .undefined _, _, _ => hasValue_of_eq (v := .undefined) trivial fun _ => funext fun _ => by
    rw [evaluate]
  | .reference _ _, h, _ => by
    rw [Expr.isConstant] at h
    cases h
  | .name _ _, h, _ => by
    rw [Expr.isConstant] at h
    cases h
  | .field span o f, h, hSum => by
    rw [Expr.isConstant, Bool.and_eq_true] at h
    rw [Expr.calls, List.mem_append] at hSum
    exact hasValue_field hSites span
      (hasValue_of_isConstant hSites o h.1 fun hMem => hSum (.inl hMem))
      (hasValue_of_isConstant hSites f h.2 fun hMem => hSum (.inr hMem))
  | .call span name args, h, hSum => by
    rw [Expr.isConstant] at h
    rw [Expr.calls, List.mem_cons] at hSum
    refine hasValue_call hSites span name
      (hasValue_of_areConstant hSites args h fun hMem => hSum (.inr hMem)) ?_
    rintro rfl rfl
    exact hSum (.inl rfl)
  | .binary span op l r, h, hSum => by
    rw [Expr.isConstant, Bool.and_eq_true] at h
    rw [Expr.calls, List.mem_append] at hSum
    exact hasValue_binary span op
      (hasValue_of_isConstant hSites l h.1 fun hMem => hSum (.inl hMem))
      (hasValue_of_isConstant hSites r h.2 fun hMem => hSum (.inr hMem))
  | .inline span i, h, hSum => by
    rw [Expr.isConstant] at h
    rw [Expr.calls] at hSum
    obtain ⟨v, hv, hInstant⟩ := hasValue_of_isConstant hSites i h hSum
    exact ⟨v, hv, fun s x hx => evaluate_inline _ x span i ▸ hInstant s x hx⟩

theorem hasValue_of_areConstant (hSites : SettledSites sites) : (args : List (Argument Expr)) →
    Expr.areConstant args = true → (("Sum", []) ∈ Expr.argumentCalls args → SumsAgree sites) →
      ∀ a ∈ args, HasValue sites a.value
  | [], _, _ => by simp
  | ⟨_, e, _⟩ :: rest, h, hSum => by
    rw [Expr.areConstant, Bool.and_eq_true] at h
    rw [Expr.argumentCalls, List.mem_append] at hSum
    rw [List.forall_mem_cons]
    exact ⟨hasValue_of_isConstant hSites e h.1 fun hMem => hSum (.inl hMem),
      hasValue_of_areConstant hSites rest h.2 fun hMem => hSum (.inr hMem)⟩

end

/-! ## Two evaluations -/

/-- The value of a constant expression is the same in all scopes of all settled sessions, if those of
its calls that are `Sum` without arguments find the same below the scopes. Evaluating it changes
nothing. -/
theorem finish_expression_of_isConstant {e : Expr} {s₁ s₂ : Session} {x₁ x₂ : ScopeId}
    (hConstant : e.isConstant = true) (h₁ : s₁.Settled) (h₂ : s₂.Settled)
    (hSum : ("Sum", []) ∈ e.calls → s₁.tree.sumBelow x₁ = s₂.tree.sumBelow x₂) :
    ∃ v, s₁.finish (s₁.expression x₁ e) = (v, s₁) ∧ s₂.finish (s₂.expression x₂ e) = (v, s₂) := by
  have hSites : SettledSites fun s x => (s = s₁ ∧ x = x₁) ∨ (s = s₂ ∧ x = x₂) := by
    rintro s x (⟨rfl, -⟩ | ⟨rfl, -⟩)
    · exact h₁
    · exact h₂
  obtain ⟨v, -, hInstant⟩ := hasValue_of_isConstant hSites e hConstant fun hMem =>
    ⟨s₁.tree.sumBelow x₁, by
      rintro s x (⟨rfl, rfl⟩ | ⟨rfl, rfl⟩)
      · rfl
      · exact (hSum hMem).symm⟩
  refine ⟨v, ?_, ?_⟩
  · rw [Session.expression, h₁.functions]
    exact finish_of_instant (hInstant s₁ x₁ (.inl ⟨rfl, rfl⟩))
  · rw [Session.expression, h₂.functions]
    exact finish_of_instant (hInstant s₂ x₂ (.inr ⟨rfl, rfl⟩))

/-! ### Sums below scopes -/

/-- The session of a document after all its evaluations. -/
def evaluated (d : Document) : Session :=
  ((Session.ofTree (build d) (.builtin false) .default .empty).startAll (build d).root).settle

/-- A number below another bullet. -/
def nestedOutline : String := "- [a] x\n  - [b] 1\n"

def nested : Document := ⟨"root", [⟨"root", "", ["a"]⟩, ⟨"a", "x", ["b"]⟩, ⟨"b", "1", []⟩], 0⟩

/-- The bullet of a text in one piece. -/
def plainBullet (text : String) : Formula.Bullet :=
  ⟨none, [.string ⟨0, 1, 1, 1⟩ text], ⟨0, 1, 1, 1⟩⟩

theorem build_nested : build nested = planted (.scope "root" ⟨none, [], ⟨0, 0, 1, 1⟩⟩
    [.scope "a" (plainBullet "x") [.scope "b" (plainBullet "1") [] []] []] []) :=
  build_eq (by cbv)

/-- A number right below the root. -/
def single : Document := ⟨"root", [⟨"root", "", ["c"]⟩, ⟨"c", "1", []⟩], 0⟩

theorem build_single : build single = planted (.scope "root" ⟨none, [], ⟨0, 0, 1, 1⟩⟩
    [.scope "c" (plainBullet "1") [] []] []) :=
  build_eq (by cbv)

theorem settled_nested : (evaluated nested).Settled := by
  rw [evaluated, build_nested]
  exact ⟨rfl, rfl, rfl⟩

theorem settled_single : (evaluated single).Settled := by
  rw [evaluated, build_single]
  exact ⟨rfl, rfl, rfl⟩

def sumExpr : Expr := .call .none "Sum" []

/-- Below the bullet of one document and below the root of the other there is a one. -/
theorem finish_expression_of_isConstant_sums :
    let e : Expr := .binary .none .add sumExpr (.number .none 2)
    e.isConstant = true ∧ (evaluated nested).Settled ∧ (evaluated single).Settled ∧
      ("Sum", []) ∈ e.calls ∧
      (evaluated nested).tree.sumBelow ⟨1, 0⟩ = (evaluated single).tree.sumBelow ⟨0, 0⟩ ∧
      ∃ v, (evaluated nested).finish ((evaluated nested).expression ⟨1, 0⟩ e) =
          (v, evaluated nested) ∧
        (evaluated single).finish ((evaluated single).expression ⟨0, 0⟩ e) =
          (v, evaluated single) := by
  intro e
  have hNested : (evaluated nested).tree.sumBelow ⟨1, 0⟩ = 1 := by
    rw [evaluated, build_nested]
    rfl
  have hSingle : (evaluated single).tree.sumBelow ⟨0, 0⟩ = 1 := by
    rw [evaluated, build_single]
    rfl
  have hSum := hNested.trans hSingle.symm
  exact ⟨rfl, settled_nested, settled_single, List.mem_cons_self, hSum,
    finish_expression_of_isConstant rfl settled_nested settled_single fun _ => hSum⟩

/-- The sum in a bullet and in the number below it, in one settled session. -/
theorem finish_expression_ne :
    Document.ofOutline .start nestedOutline.toList = .ok (nested, .start) ∧
      (parseInline "\x7bSum()\x7d".toList).map Expr.withoutSpans = .ok (.inline .none sumExpr) ∧
      sumExpr.isConstant = true ∧ (evaluated nested).Settled ∧
      ((evaluated nested).finish ((evaluated nested).expression ⟨1, 0⟩ sumExpr)).1 = .number 1 ∧
      ((evaluated nested).finish ((evaluated nested).expression ⟨2, 0⟩ sumExpr)).1 =
        .number (-0.0) ∧
      (1 : Float) ≠ -0.0 := by
  refine ⟨by cbv, by cbv, rfl, settled_nested, ?_, ?_, by decide⟩
  · rw [evaluated, build_nested]
    rfl
  · rw [evaluated, build_nested]
    rfl

end Process

end FormulaOutline
