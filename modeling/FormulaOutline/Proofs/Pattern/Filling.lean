import Mathlib.Data.List.Induction
import FormulaOutline.Evaluation.Expression
import FormulaOutline.Function.Days
import FormulaOutline.Pattern.Learn

/-!
# Which declared argument an argument fills

Learning takes an argument without a name for the declared one at its place among all arguments of the
call. Evaluation takes it for the one at its place among those without a name, and a name goes before
a place. So the two agree on an argument without a name only if the ones with a name leave its place
alone.

* `positional_ofList`, `named?_ofList`: what the arguments of a call are read from.
* `Argument.Unblocked`: the other arguments of the call leave the place of an argument alone.
* `value?_of_unblocked`, `unblocked_of_value?`: when an argument is read for a declared one.
* `slot_bindArguments_iff`: a call reads an argument for the declared one that learning takes it for
  if and only if it is unblocked.
-/

namespace FormulaOutline

open Formula Evaluation

/-! ## Arguments of a call -/

namespace CallArgs

variable {args : CallArgs} {name : String} {v : Value}

theorem named?_insertNamed (args : CallArgs) (n : String) (v : Value) (name : String) :
    (args.insertNamed n v).named? name =
      (args.named? name).or (if name = n then some v else none) := by
  have hAny : args.named.any (·.1 == n) = (args.named? n).isSome := by
    rw [named?]
    induction args.named with
    | nil => rfl
    | cons e rest ih =>
      rw [List.any_cons, List.lookup_cons, ih, BEq.comm]
      cases n == e.1 <;> rfl
  rw [insertNamed, hAny]
  split
  · rename_i hTaken
    obtain ⟨w, hw⟩ := Option.isSome_iff_exists.1 hTaken
    split
    · rename_i hName
      rw [hName, hw, Option.some_or]
    · rw [Option.or_none]
  · rw [named?, List.lookup_append, named?, List.lookup_cons, List.lookup_nil]
    by_cases hName : name = n
    · rw [if_pos hName, hName, beq_self_eq_true]
    · rw [if_neg hName, beq_eq_false_iff_ne.2 hName]

theorem ofList_append_singleton (l : List (Option String × Value)) (e : Option String × Value) :
    ofList (l ++ [e]) = (ofList l).add e.1 e.2 := by
  rw [ofList, List.foldl_append]
  rfl

/-- The values without a name, in their order. -/
theorem positional_ofList (l : List (Option String × Value)) :
    (ofList l).positional = (l.filter (·.1.isNone)).map Prod.snd := by
  induction l using List.reverseRecOn with
  | nil => rfl
  | append_singleton l e ih =>
    obtain ⟨_ | n, v⟩ := e
    · rw [ofList_append_singleton, List.filter_append, List.map_append, ← ih]
      rfl
    · have hSame : ((ofList l).insertNamed n v).positional = (ofList l).positional := by
        rw [insertNamed]
        split <;> rfl
      rw [ofList_append_singleton, List.filter_append, List.map_append, ← ih]
      exact hSame.trans (List.append_nil _).symm

/-- The first value with the name. -/
theorem named?_ofList (l : List (Option String × Value)) (name : String) :
    (ofList l).named? name = (l.find? (·.1 == some name)).map Prod.snd := by
  induction l using List.reverseRecOn with
  | nil => rfl
  | append_singleton l e ih =>
    obtain ⟨_ | n, v⟩ := e
    · rw [ofList_append_singleton, List.find?_append, Option.map_or, ← ih]
      exact (Option.or_none).symm
    · rw [ofList_append_singleton, List.find?_append, Option.map_or, ← ih, add]
      dsimp only
      rw [named?_insertNamed, List.find?_singleton]
      by_cases hName : name = n
      · simp [hName]
      · simp [hName, Ne.symm hName]

end CallArgs

/-- What a declared argument with a value is read as. -/
def ArgumentSlot.ofValue (v : Value) : ArgumentSlot := if v.isUndefined then .blank else .present v

theorem CallArgs.slot_of_value? {args : CallArgs} {name : String} {i : Nat} {v : Value}
    (h : args.value? name i = some v) : args.slot name i = .ofValue v := by
  rw [slot, h]
  rfl

theorem CallArgs.value?_of_slot {args : CallArgs} {name : String} {i : Nat} {v : Value}
    (hSome : v.isUndefined = false) (h : args.slot name i = .ofValue v) :
    args.value? name i = some v := by
  rw [slot, ArgumentSlot.ofValue, if_neg (by simp [hSome])] at h
  split at h
  · cases h
  · rename_i w hw
    split at h <;> cases h
    exact hw

/-! ## One argument among others -/

section Places

variable {before after : List (Option String × Value)} {name : String} {v : Value} {j : Nat}

theorem value?_named (hFirst : ∀ e ∈ before, e.1 ≠ some name) :
    (CallArgs.ofList (before ++ (some name, v) :: after)).value? name j = some v := by
  have hNone : before.find? (·.1 == some name) = none := by
    simpa [List.find?_eq_none] using hFirst
  rw [CallArgs.value?, CallArgs.named?_ofList, List.find?_append, hNone, Option.none_or,
    List.find?_cons_of_pos (by simp)]
  rfl

theorem value?_unnamed (hBefore : ∀ e ∈ before, e.1 = none)
    (hAfter : ∀ e ∈ after, e.1 ≠ some name) :
    (CallArgs.ofList (before ++ (none, v) :: after)).value? name before.length = some v := by
  have hNone : (before ++ (none, v) :: after).find? (·.1 == some name) = none := by
    simp only [List.find?_eq_none, List.mem_append, List.mem_cons, beq_iff_eq]
    rintro e (he | rfl | he)
    · simp [hBefore e he]
    · simp
    · exact hAfter e he
  have hAll : before.filter (·.1.isNone) = before :=
    List.filter_eq_self.2 fun e he => by simp [hBefore e he]
  rw [CallArgs.value?, CallArgs.named?_ofList, hNone, CallArgs.positional_ofList,
    List.filter_append, hAll]
  simp

/-- A value that no other argument has is read by name from the first argument of that name. -/
theorem first_of_value? (hValue : ∀ e ∈ before ++ after, e.2 ≠ v)
    (h : (CallArgs.ofList (before ++ (some name, v) :: after)).value? name j = some v) :
    ∀ e ∈ before, e.1 ≠ some name := by
  intro e he hName
  have hSome : (before.find? (·.1 == some name)).isSome = true :=
    List.find?_isSome.2 ⟨e, he, by simp [hName]⟩
  obtain ⟨first, hFirst⟩ := Option.isSome_iff_exists.1 hSome
  rw [CallArgs.value?, CallArgs.named?_ofList, List.find?_append, hFirst] at h
  exact hValue first (List.mem_append_left _ (List.mem_of_find?_eq_some hFirst))
    (Option.some.inj h)

/-- Such a value is read by its place only if there is none with the name, and none with any name
before it. -/
theorem unnamed_of_value? (hValue : ∀ e ∈ before ++ after, e.2 ≠ v)
    (h : (CallArgs.ofList (before ++ (none, v) :: after)).value? name before.length = some v) :
    (∀ e ∈ before, e.1 = none) ∧ ∀ e ∈ after, e.1 ≠ some name := by
  rw [CallArgs.value?, CallArgs.named?_ofList, CallArgs.positional_ofList] at h
  rcases Option.or_eq_some_iff.1 h with h | ⟨hNone, hAt⟩
  · obtain ⟨e, he, hSame⟩ := Option.map_eq_some_iff.1 h
    have hName := List.find?_some he
    rcases List.mem_append.1 (List.mem_of_find?_eq_some he) with hMem | hMem
    · exact (hValue e (List.mem_append_left _ hMem) hSame).elim
    rcases List.mem_cons.1 hMem with rfl | hMem
    · simp at hName
    · exact (hValue e (List.mem_append_right _ hMem) hSame).elim
  · rw [Option.map_eq_none_iff, List.find?_eq_none] at hNone
    refine ⟨?_, fun e he hName => hNone e (by simp [he]) (by simp [hName])⟩
    rw [List.filter_append, List.filter_cons_of_pos (by rfl), List.map_append, List.map_cons] at hAt
    have hLength := List.length_filter_le (fun e => e.1.isNone) before
    -- With fewer values before it, its place would be taken by a value behind it.
    have hAll : (before.filter (·.1.isNone)).length = before.length := by
      refine Nat.le_antisymm hLength (Nat.le_of_not_lt fun hFewer => ?_)
      have hMem : v ∈ (after.filter (·.1.isNone)).map Prod.snd := by
        rw [List.getElem?_append_right (by simpa using hLength), List.length_map] at hAt
        obtain ⟨n, hn⟩ : ∃ n, before.length - (before.filter (·.1.isNone)).length = n + 1 :=
          Nat.exists_eq_add_one_of_ne_zero (by omega)
        rw [hn, List.getElem?_cons_succ] at hAt
        exact List.mem_of_getElem? hAt
      obtain ⟨e, he, hSame⟩ := List.mem_map.1 hMem
      exact hValue e (List.mem_append_right _ (List.mem_filter.1 he).1) hSame
    exact fun e he => by simpa using List.length_filter_eq_length_iff.1 hAll e he

end Places

/-! ## Learning and evaluation -/

/-- The others leave the place of the argument alone: none before it has its name, or if it has none,
no name stands before it and no argument has the name of the declared one at its place. -/
def Formula.Argument.Unblocked (arg : Argument Expr) (before after : List (Argument Expr))
    (spec : ParameterSpec) : Prop :=
  match arg.name with
  | some name => ∀ a ∈ before, a.name ≠ some name
  | none => (∀ a ∈ before, a.name = none) ∧ ∀ a ∈ after, a.name ≠ some spec.name

theorem bindArguments_append {before after : List (Argument Expr)} {vs ws : List Value}
    (arg : Argument Expr) (v : Value) (h : vs.length = before.length) :
    bindArguments (before ++ arg :: after) (vs ++ v :: ws) =
      .ofList ((before.map Argument.name).zip vs ++
        (arg.name, v) :: (after.map Argument.name).zip ws) := by
  rw [bindArguments, List.map_append, List.zip_append (by simp [h]), List.map_cons,
    List.zip_cons_cons]

/-- What holds of the names of arguments holds of the names they are bound to. -/
theorem forall_zip_iff {args : List (Argument Expr)} {vs : List Value} (p : Option String → Prop)
    (h : vs.length = args.length) :
    (∀ e ∈ (args.map Argument.name).zip vs, p e.1) ↔ ∀ a ∈ args, p a.name := by
  have hNames : ((args.map Argument.name).zip vs).map Prod.fst = args.map Argument.name :=
    List.map_fst_zip (by simp [h])
  rw [← List.forall_mem_map, hNames, List.forall_mem_map]

theorem length_zip_names {args : List (Argument Expr)} {vs : List Value}
    (h : vs.length = args.length) : ((args.map Argument.name).zip vs).length = args.length := by
  rw [List.length_zip, List.length_map, h, Nat.min_self]

theorem ne_of_mem_zip {args : List (Argument Expr)} {vs : List Value} {v : Value} (h : v ∉ vs) :
    ∀ e ∈ (args.map Argument.name).zip vs, e.2 ≠ v := by
  rintro e he rfl
  exact h (List.of_mem_zip he).2

section Declared

variable {parameters : List ParameterSpec} {spec : ParameterSpec} {arg : Argument Expr} {i j : Nat}
  {before after : List (Argument Expr)} {vs ws : List Value} {v : Value}

theorem name_of_declared? (h : Pattern.declared? parameters arg i = some spec) {name : String}
    (hName : arg.name = some name) : spec.name = name := by
  rw [Pattern.declared?, hName] at h
  simpa using List.find?_some h

theorem place_of_declared? (hNames : (parameters.map ParameterSpec.name).Nodup)
    (hSpec : parameters[j]? = some spec) (h : Pattern.declared? parameters arg i = some spec)
    (hName : arg.name = none) : i = j := by
  rw [Pattern.declared?, hName] at h
  have hAt : ∀ k : Nat, parameters[k]? = some spec →
      (parameters.map ParameterSpec.name)[k]? = some spec.name := by
    intro k hk
    rw [List.getElem?_map, hk, Option.map_some]
  obtain ⟨hLength, -⟩ := List.getElem?_eq_some_iff.1 (hAt i h)
  exact (List.getElem?_inj hLength hNames).1 ((hAt i h).trans (hAt j hSpec).symm)

/-- An argument whose place is left alone is read for the declared one. -/
theorem value?_of_unblocked (hNames : (parameters.map ParameterSpec.name).Nodup)
    (hSpec : parameters[j]? = some spec)
    (hDeclared : Pattern.declared? parameters arg before.length = some spec)
    (hBefore : vs.length = before.length) (hAfter : ws.length = after.length)
    (h : arg.Unblocked before after spec) :
    (bindArguments (before ++ arg :: after) (vs ++ v :: ws)).value? spec.name j = some v := by
  rw [bindArguments_append _ _ hBefore]
  cases hName : arg.name with
  | some name =>
    obtain rfl := name_of_declared? hDeclared hName
    rw [Argument.Unblocked, hName] at h
    exact value?_named ((forall_zip_iff (· ≠ some spec.name) hBefore).2 h)
  | none =>
    obtain rfl := place_of_declared? hNames hSpec hDeclared hName
    rw [Argument.Unblocked, hName] at h
    rw [← length_zip_names hBefore]
    exact value?_unnamed ((forall_zip_iff (· = none) hBefore).2 h.1)
      ((forall_zip_iff (· ≠ some spec.name) hAfter).2 h.2)

/-- No other argument has the value of this one, so reading it shows that it was read here. -/
theorem unblocked_of_value? (hNames : (parameters.map ParameterSpec.name).Nodup)
    (hSpec : parameters[j]? = some spec)
    (hDeclared : Pattern.declared? parameters arg before.length = some spec)
    (hBefore : vs.length = before.length) (hAfter : ws.length = after.length)
    (hvs : v ∉ vs) (hws : v ∉ ws)
    (h : (bindArguments (before ++ arg :: after) (vs ++ v :: ws)).value? spec.name j = some v) :
    arg.Unblocked before after spec := by
  rw [bindArguments_append _ _ hBefore] at h
  have hOther : ∀ e ∈ (before.map Argument.name).zip vs ++ (after.map Argument.name).zip ws,
      e.2 ≠ v :=
    List.forall_mem_append.2 ⟨ne_of_mem_zip hvs, ne_of_mem_zip hws⟩
  cases hName : arg.name with
  | some name =>
    obtain rfl := name_of_declared? hDeclared hName
    rw [hName] at h
    rw [Argument.Unblocked, hName]
    exact (forall_zip_iff (· ≠ some spec.name) hBefore).1 (first_of_value? hOther h)
  | none =>
    obtain rfl := place_of_declared? hNames hSpec hDeclared hName
    rw [hName, ← length_zip_names hBefore] at h
    rw [Argument.Unblocked, hName]
    obtain ⟨hUnnamed, hLater⟩ := unnamed_of_value? hOther h
    exact ⟨(forall_zip_iff (· = none) hBefore).1 hUnnamed,
      (forall_zip_iff (· ≠ some spec.name) hAfter).1 hLater⟩

end Declared

/-- The call of a function reads an argument for the declared one that learning takes it for, whatever
the values are, if and only if the other arguments leave its place alone. -/
theorem slot_bindArguments_iff {parameters : List ParameterSpec} {spec : ParameterSpec} {j : Nat}
    {before after : List (Argument Expr)} {arg : Argument Expr}
    (hNames : (parameters.map ParameterSpec.name).Nodup) (hSpec : parameters[j]? = some spec)
    (hDeclared : Pattern.declared? parameters arg before.length = some spec) :
    (∀ vs v ws, vs.length = before.length → ws.length = after.length →
      (bindArguments (before ++ arg :: after) (vs ++ v :: ws)).slot spec.name j = .ofValue v) ↔
      arg.Unblocked before after spec := by
  constructor
  · intro h
    -- One value for this argument, and another one for all the others.
    have hRead := h (before.map fun _ => .null) (.bool true) (after.map fun _ => .null)
      (List.length_map _) (List.length_map _)
    exact unblocked_of_value? hNames hSpec hDeclared (List.length_map _) (List.length_map _)
      (by simp) (by simp) (CallArgs.value?_of_slot rfl hRead)
  · intro h vs v ws hBefore hAfter
    exact CallArgs.slot_of_value? (value?_of_unblocked hNames hSpec hDeclared hBefore hAfter h)

/-- Arguments with names can come in another order than the declared ones. -/
theorem slot_bindArguments_iff_swapped :
    let later : Argument Expr := ⟨some "to", .reference .none "b", .none⟩
    let earlier : Argument Expr := ⟨some "from", .reference .none "c", .none⟩
    (Functions.days.parameters.map ParameterSpec.name).Nodup ∧
      Functions.days.parameters[0]? = some ⟨"from", .date⟩ ∧
      Pattern.declared? Functions.days.parameters earlier 1 = some ⟨"from", .date⟩ ∧
      ∀ v w, (bindArguments [later, earlier] [v, w]).slot "from" 0 = .ofValue w := by
  intro later earlier
  have hNames : (Functions.days.parameters.map ParameterSpec.name).Nodup := by decide
  have hDeclared : Pattern.declared? Functions.days.parameters earlier [later].length =
      some ⟨"from", .date⟩ := by rfl
  have hFree : earlier.Unblocked [later] [] ⟨"from", .date⟩ :=
    List.forall_mem_singleton.2 (by decide)
  exact ⟨hNames, rfl, hDeclared, fun v w =>
    (slot_bindArguments_iff hNames (j := 0) rfl hDeclared).2 hFree [v] w [] rfl rfl⟩

/-- In `Days(from: #[c], #[b])` learning takes the second argument for the declared one at the second
place, and evaluation finds no argument there. -/
theorem slot_absent_behind_name :
    let first : Argument Expr := ⟨some "from", .reference .none "c", .none⟩
    let second : Argument Expr := ⟨none, .reference .none "b", .none⟩
    Pattern.declared? Functions.days.parameters second 1 = some ⟨"to", .date⟩ ∧
      Functions.days.parameters[1]? = some ⟨"to", .date⟩ ∧
      (bindArguments [first, second] [.scope ⟨4, 0⟩, .scope ⟨5, 0⟩]).slot "to" 1 = .absent :=
  ⟨rfl, rfl, rfl⟩

end FormulaOutline
