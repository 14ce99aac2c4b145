import FormulaOutline.Proofs.Formula.Acceptance

/-!
# Where reading stops

A reader that fails points at tokens it was given or at their end. How deep formulas may be nested
is bounded by a number that the tokens never reach.

* `StopsWithin`: the failures of a reader point into its tokens.
* `stopsWithin_expression`: those of formulas do.
* `SameBelow`: two readers agree on all short lists of tokens.
* `expression_of_deeper`: more depth than there are tokens makes no difference.
* `parseExpression_eq_error`: where errors are reported.
-/

namespace FormulaOutline.Formula

theorem bind_eq_error {ε α β : Type} {x : Except ε α} {f : α → Except ε β} {e : ε} :
    x >>= f = .error e ↔ x = .error e ∨ ∃ a, x = .ok a ∧ f a = .error e := by
  cases x with
  | error e' => simp [bind, Except.bind]
  | ok a => simp [bind, Except.bind]

theorem Takes.suffix {α : Type} {reader : Reader α} {P : α → List Token → Prop}
    (h : Takes reader P) {ts rest : List Token} {a : α} (hRead : reader ts = .ok (a, rest)) :
    rest <:+ ts := by
  obtain ⟨us, rfl, -⟩ := h ts a rest hRead
  exact List.suffix_append us rest

/-! ## Failures -/

/-- Whatever the reader fails at stands at the end of the tokens it was given. -/
def StopsWithin {α : Type} (reader : Reader α) : Prop :=
  ∀ ts failure, reader ts = .error failure → failure.rest <:+ ts

theorem expectSign_stopsWithin (s : Sign) : StopsWithin (expectSign s) := by
  intro ts failure h
  cases ts with
  | nil =>
    cases h
    exact List.suffix_refl _
  | cons t ts =>
    rw [expectSign] at h
    split at h
    · cases h
    · cases h
      exact List.suffix_refl _

section Chains

variable {level : Sign → Option Operator} {reader : Reader Expr} {P : Expr → List Token → Prop}
  (hReader : StopsWithin reader) (hTakes : Takes reader P)
include hReader hTakes

theorem chain_stopsWithin (fuel : Nat) (lhs : Expr) :
    StopsWithin (chain level reader fuel lhs) := by
  induction fuel generalizing lhs with
  | zero =>
    intro ts failure h
    rw [chain] at h
    cases h
  | succ fuel ih =>
    intro ts failure h
    cases ts with
    | nil =>
      rw [chain] at h
      · cases h
      · exact Nat.succ_ne_zero fuel
    | cons sign ts =>
      rw [chain] at h
      split at h
      · cases h
      · rcases bind_eq_error.1 h with hRhs | ⟨⟨rhs, ts'⟩, hRhs, hChain⟩
        · exact (hReader ts failure hRhs).trans (List.suffix_cons sign ts)
        · exact (ih _ ts' failure hChain).trans
            ((hTakes.suffix hRhs).trans (List.suffix_cons sign ts))

theorem leftAssociated_stopsWithin : StopsWithin (leftAssociated level reader) := by
  intro ts failure h
  rcases bind_eq_error.1 h with hLhs | ⟨⟨lhs, ts'⟩, hLhs, hChain⟩
  · exact hReader ts failure hLhs
  · exact (chain_stopsWithin hReader hTakes _ lhs ts' failure hChain).trans (hTakes.suffix hLhs)

end Chains

theorem fields_stopsWithin (object : Expr) : StopsWithin (fields object) := by
  intro ts failure h
  fun_induction fields object ts with
  | case1 object dot t ts hDot name hName ih => exact (ih h).trans ⟨[dot, t], rfl⟩
  | case2 object dot t ts hDot hName =>
    cases h
    exact List.suffix_cons dot (t :: ts)
  | case4 object dot hDot =>
    cases h
    exact List.nil_suffix
  | case3 | case5 | case6 => cases h

section Nested

variable {nested : Reader Expr} (hNested : StopsWithin nested) (hTakes : Takes nested fun e => Builds (.sum e))
include hNested

theorem argument_stopsWithin : StopsWithin (argument nested) := by
  intro ts failure h
  rw [argument] at h
  split at h
  · rcases bind_eq_error.1 h with hValue | ⟨⟨value, ts'⟩, -, hDone⟩
    · exact hNested ts failure hValue
    · cases hDone
  · rename_i key hKey
    obtain ⟨rfl, -, -⟩ := argumentKey?_eq_some hKey
    dsimp only at h
    split at h
    · cases h
    · rcases bind_eq_error.1 h with hValue | ⟨⟨value, ts'⟩, -, hDone⟩
      · refine (hNested key.rest failure hValue).trans ⟨key.first :: (key.more ++ [key.colon]), ?_⟩
        simp
      · cases hDone

include hTakes

theorem argumentList_stopsWithin (fuel : Nat) : StopsWithin (argumentList nested fuel) := by
  induction fuel with
  | zero =>
    intro ts failure h
    rw [argumentList] at h
    rcases bind_eq_error.1 h with hFirst | ⟨⟨first, ts'⟩, -, hDone⟩
    · exact argument_stopsWithin hNested ts failure hFirst
    · cases hDone
  | succ fuel ih =>
    intro ts failure h
    rw [argumentList] at h
    rcases bind_eq_error.1 h with hFirst | ⟨⟨first, ts'⟩, hFirst, hMore⟩
    · exact argument_stopsWithin hNested ts failure hFirst
    · dsimp only at hMore
      split at hMore
      · rcases bind_eq_error.1 hMore with hTail | ⟨⟨more, ts''⟩, -, hDone⟩
        · exact (ih ts'.tail failure hTail).trans
            ((List.tail_suffix ts').trans ((argument_takes hTakes).suffix hFirst))
        · cases hDone
      · cases hMore

theorem arguments_stopsWithin : StopsWithin (arguments nested) := by
  intro ts failure h
  rw [arguments] at h
  split at h
  · cases h
  · exact argumentList_stopsWithin hNested hTakes _ ts failure h

omit hNested in
theorem arguments_suffix {ts rest : List Token} {as : List (Argument Expr)}
    (h : arguments nested ts = .ok (as, rest)) : rest <:+ ts := by
  rw [arguments] at h
  split at h
  · cases h
    exact List.suffix_refl _
  · exact (argumentList_takes hTakes _).suffix h

theorem nameOrCall_stopsWithin (span : Span) (name : String) :
    StopsWithin (nameOrCall nested span name) := by
  intro ts failure h
  rw [nameOrCall] at h
  split at h
  · rcases bind_eq_error.1 h with hArguments | ⟨⟨as, ts'⟩, hArguments, hClose⟩
    · exact (arguments_stopsWithin hNested hTakes _ failure hArguments).trans (List.tail_suffix ts)
    · have hRest := (arguments_suffix hTakes hArguments).trans (List.tail_suffix ts)
      rcases bind_eq_error.1 hClose with hClose | ⟨⟨span, ts''⟩, -, hDone⟩
      · exact (expectSign_stopsWithin .rightParen ts' failure hClose).trans hRest
      · cases hDone
  · cases h

theorem primary_stopsWithin : StopsWithin (primary nested) := by
  intro ts failure h
  cases ts with
  | nil =>
    cases h
    exact List.suffix_refl _
  | cons t ts =>
    rw [primary] at h
    split at h
    · cases h
    · cases h
    · cases h
    · have hTail := List.suffix_cons t ts
      rcases bind_eq_error.1 h with hInner | ⟨⟨inner, ts'⟩, hInner, hClose⟩
      · exact (hNested ts failure hInner).trans hTail
      · rcases bind_eq_error.1 hClose with hClose | ⟨⟨span, ts''⟩, -, hDone⟩
        · exact (expectSign_stopsWithin .rightParen ts' failure hClose).trans
            ((hTakes.suffix hInner).trans hTail)
        · cases hDone
    · exact (nameOrCall_stopsWithin hNested hTakes _ _ ts failure h).trans (List.suffix_cons t ts)
    · cases h
      exact List.suffix_refl _

theorem operand_stopsWithin : StopsWithin (operand nested) := by
  intro ts failure h
  rcases bind_eq_error.1 h with hObject | ⟨⟨object, ts'⟩, hObject, hFields⟩
  · exact primary_stopsWithin hNested hTakes ts failure hObject
  · exact (fields_stopsWithin object ts' failure hFields).trans
      ((primary_takes hTakes).suffix hObject)

end Nested

/-- A formula that cannot be read is given up at one of its tokens or at their end. -/
theorem stopsWithin_expression (depth : Nat) : StopsWithin (expression depth) := by
  induction depth with
  | zero =>
    intro ts failure h
    cases h
    exact List.suffix_refl _
  | succ depth ih =>
    have hOperand := operand_takes (takes_expression depth)
    exact leftAssociated_stopsWithin
      (leftAssociated_stopsWithin (operand_stopsWithin ih (takes_expression depth)) hOperand)
      (leftAssociated_takes .product .multiplicative hOperand)

/-! ## Depth -/

/-- The readers agree on all lists of less than `n` tokens. -/
def SameBelow {α : Type} (n : Nat) (reader reader' : Reader α) : Prop :=
  ∀ ts, ts.length < n → reader ts = reader' ts

theorem bind_congr_ok {ε α β : Type} {x : Except ε α} {f g : α → Except ε β}
    (h : ∀ a, x = .ok a → f a = g a) : x >>= f = x >>= g := by
  cases x with
  | error e => rfl
  | ok a => exact h a rfl

section Chains

variable {level : Sign → Option Operator} {reader reader' : Reader Expr}
  {P : Expr → List Token → Prop} {n : Nat}
  (hSame : SameBelow n reader reader') (hTakes : Takes reader P)
include hSame hTakes

theorem sameBelow_chain (fuel : Nat) (lhs : Expr) :
    SameBelow n (chain level reader fuel lhs) (chain level reader' fuel lhs) := by
  induction fuel generalizing lhs with
  | zero => exact fun ts _ => by rw [chain, chain]
  | succ fuel ih =>
    intro ts hShort
    cases ts with
    | nil => rw [chain, chain] <;> exact Nat.succ_ne_zero fuel
    | cons sign ts =>
      rw [List.length_cons] at hShort
      rw [chain, chain, ← hSame ts (by omega)]
      split
      · rfl
      · apply bind_congr_ok
        rintro ⟨rhs, ts'⟩ hRhs
        have hLength := (hTakes.suffix hRhs).length_le
        exact ih _ ts' (by omega)

theorem sameBelow_leftAssociated :
    SameBelow n (leftAssociated level reader) (leftAssociated level reader') := by
  intro ts hShort
  rw [leftAssociated, leftAssociated, ← hSame ts hShort]
  apply bind_congr_ok
  rintro ⟨lhs, ts'⟩ hLhs
  have hLength := (hTakes.suffix hLhs).length_le
  exact sameBelow_chain hSame hTakes _ lhs ts' (by omega)

end Chains

section Nested

variable {nested nested' : Reader Expr} {n : Nat} (hSame : SameBelow n nested nested')
  (hTakes : Takes nested fun e => Builds (.sum e))
include hSame

theorem sameBelow_argument : SameBelow n (argument nested) (argument nested') := by
  intro ts hShort
  rw [argument, argument]
  split
  · rw [hSame ts hShort]
  · rename_i key hKey
    obtain ⟨rfl, -, -⟩ := argumentKey?_eq_some hKey
    simp only [List.length_cons, List.length_append] at hShort
    rw [hSame key.rest (by omega)]

include hTakes

theorem sameBelow_argumentList (fuel : Nat) :
    SameBelow n (argumentList nested fuel) (argumentList nested' fuel) := by
  induction fuel with
  | zero =>
    intro ts hShort
    rw [argumentList, argumentList, sameBelow_argument hSame ts hShort]
  | succ fuel ih =>
    intro ts hShort
    rw [argumentList, argumentList, ← sameBelow_argument hSame ts hShort]
    apply bind_congr_ok
    rintro ⟨first, ts'⟩ hFirst
    have hLength := ((argument_takes hTakes).suffix hFirst).length_le
    dsimp only
    rw [ih ts'.tail (by rw [List.length_tail]; omega)]

theorem sameBelow_nameOrCall (span : Span) (name : String) :
    SameBelow n (nameOrCall nested span name) (nameOrCall nested' span name) := by
  intro ts hShort
  have hTail : ts.tail.length < n := by
    rw [List.length_tail]
    omega
  rw [nameOrCall, nameOrCall, arguments, arguments, sameBelow_argumentList hSame hTakes _ _ hTail]

theorem sameBelow_operand : SameBelow (n + 1) (operand nested) (operand nested') := by
  intro ts hShort
  have hPrimary : primary nested ts = primary nested' ts := by
    cases ts with
    | nil => rfl
    | cons t ts =>
      have hShort : ts.length < n := Nat.lt_of_succ_lt_succ hShort
      rw [primary, primary, hSame ts hShort]
      split <;> try rfl
      exact sameBelow_nameOrCall hSame hTakes _ _ ts hShort
  rw [operand, operand, hPrimary]

end Nested

theorem sameBelow_expression {depth depth' : Nat} (h : depth ≤ depth') :
    SameBelow depth (expression depth) (expression depth') := by
  induction depth generalizing depth' with
  | zero => exact fun ts hShort => absurd hShort (Nat.not_lt_zero _)
  | succ depth ih =>
    obtain ⟨depth', rfl⟩ := Nat.exists_eq_add_one_of_ne_zero (Nat.ne_zero_of_lt h)
    have hTakes := takes_expression depth
    exact sameBelow_leftAssociated
      (sameBelow_leftAssociated (sameBelow_operand (ih (Nat.le_of_succ_le_succ h)) hTakes)
        (operand_takes hTakes))
      (leftAssociated_takes .product .multiplicative (operand_takes hTakes))

/-- No formula is nested deeper than it has tokens. -/
theorem expression_of_deeper {ts : List Token} {depth : Nat} (h : ts.length < depth) :
    expression depth ts = expression (ts.length + 1) ts :=
  (sameBelow_expression h ts (Nat.lt_succ_self _)).symm

/-! ## Errors -/

theorem firstInvalid?_place {stop : Text.Position} {ts : List Token} {e : ParseError}
    (h : firstInvalid? stop ts = some e) : ∃ rest, rest <:+ ts ∧ e.place = placeOf stop rest := by
  induction ts with
  | nil => cases h
  | cons t ts ih =>
    rw [firstInvalid?] at h
    split at h
    · cases h
      exact ⟨t :: ts, List.suffix_refl _, rfl⟩
    · obtain ⟨rest, hRest, hPlace⟩ := ih h
      exact ⟨rest, hRest.trans (List.suffix_cons t ts), hPlace⟩

/-- An error is reported at one of the tokens or at the end of the range. -/
theorem parseExpression_eq_error {lexed : Lexed} {e : ParseError}
    (h : parseExpression lexed = .error e) :
    ∃ rest, rest <:+ lexed.tokens ∧ e.place = placeOf lexed.stop rest := by
  rw [parseExpression] at h
  split at h
  · rename_i e' hInvalid
    cases h
    exact firstInvalid?_place hInvalid
  · split at h
    · cases h
      exact ⟨[], List.nil_suffix, rfl⟩
    · split at h
      · rename_i failure hFailure
        cases h
        exact ⟨failure.rest, stopsWithin_expression _ _ failure hFailure, rfl⟩
      · cases h
      · rename_i e' t rest hRead
        cases h
        exact ⟨t :: rest, (takes_expression _).suffix hRead, rfl⟩

end FormulaOutline.Formula
