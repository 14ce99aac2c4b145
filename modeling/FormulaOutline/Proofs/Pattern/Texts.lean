import FormulaOutline.Proofs.Formula.RoundTrip
import FormulaOutline.Proofs.Formula.Writing
import FormulaOutline.Proofs.Pattern.Learning

/-!
# Texts of the formulas that patterns make

The formula that a pattern makes of a printable example is printable, and its text is read as a call of
the same shape.

* `CallShape.of?_congr`: the shape of a call does not depend on spans.
* `beq_self_of_printable`: the shape of a printable call is equal to itself.
* `ofText?_inline`: the shape of a printable call is read from its text.
* `Writable.synthesize`: a pattern makes printable formulas.
-/

namespace FormulaOutline

open Formula ScopeTree

/-! ## Comparing with itself -/

namespace Formula

theorem same_self_of_isMissing {a : Argument Expr} (h : a.isMissing = true) :
    Expr.same a.value.withoutSpans a.value.withoutSpans = true := by
  obtain ⟨name, value, span⟩ := a
  cases value with
  | undefined => rfl
  | _ => cases h

/-- A printable expression is the same as itself, apart from its spans. -/
theorem Expr.Printable.same_self {e : Expr} (h : e.Printable) :
    Expr.same e.withoutSpans e.withoutSpans = true := by
  induction h with
  | string s v => simp [Expr.withoutSpans, Expr.same]
  | number hUnsigned =>
    obtain ⟨mantissa, exponent, hDenote⟩ := hUnsigned
    simp [Expr.withoutSpans, Expr.same, Number.beq_self hDenote]
  | reference hId => simp [Expr.withoutSpans, Expr.same]
  | name hSpaced => simp [Expr.withoutSpans, Expr.same]
  | field _ hName ih => simp [Expr.withoutSpans, Expr.same, ih]
  | @binary s op l r _ _ ihL ihR =>
    simp [Expr.withoutSpans, Expr.same, ihL, ihR]
  | @call s f args hName hNames hMissing hGiven ih =>
    have hEach : ∀ a ∈ args, Expr.same a.value.withoutSpans a.value.withoutSpans = true := by
      intro a ha
      cases hGone : a.isMissing with
      | false => exact ih a ha hGone
      | true => exact same_self_of_isMissing hGone
    have hArguments : Expr.sameArguments (Expr.argumentsWithoutSpans args)
        (Expr.argumentsWithoutSpans args) = true := by
      clear hNames hMissing ih hGiven
      induction args with
      | nil => rfl
      | cons a rest ih =>
        rw [List.forall_mem_cons] at hEach
        simp [Expr.argumentsWithoutSpans, Expr.sameArguments, hEach.1, ih hEach.2]
    simp [Expr.withoutSpans, Expr.same, hArguments]

/-! ## Calls in bullets -/

/-- A call that is a whole bullet stands in it between braces, with blanks around it. -/
theorem exists_inline_of_singleCall? {b : Bullet} {call : Expr} (h : b.singleCall? = some call) :
    ∃ span, b.parts.filter (!Bullet.isBlankPart ·) = [.inline span call] := by
  rw [Bullet.singleCall?] at h
  split at h
  · cases h
  · split at h
    · rename_i span inner hParts
      split at h
      · cases h
        exact ⟨span, hParts⟩
      · cases h
    · cases h

theorem exists_mem_parts_of_singleCall? {b : Bullet} {call : Expr}
    (h : b.singleCall? = some call) : ∃ span, Expr.inline span call ∈ b.parts := by
  obtain ⟨span, hParts⟩ := exists_inline_of_singleCall? h
  have hMem : Expr.inline span call ∈ b.parts.filter (!Bullet.isBlankPart ·) := by
    rw [hParts]
    exact List.mem_singleton_self _
  exact ⟨span, (List.mem_filter.mp hMem).1⟩

end Formula

/-! ## Shapes -/

namespace CallShape

theorem of?_withoutSpans (e : Expr) : of? e.withoutSpans = of? e := by
  cases e with
  | call s function args =>
    rw [Expr.withoutSpans, of?, of?, argumentsWithoutSpans_eq, List.foldl_map]
    refine congrArg some ?_
    generalize (⟨function, [], []⟩ : CallShape) = shape
    induction args generalizing shape with
    | nil => rfl
    | cons arg rest ih =>
      rw [List.foldl_cons, List.foldl_cons, ih]
      congr 1
      simp only [add, withoutSpans_withoutSpans]
  | _ => rfl

/-- The shape of a call does not depend on spans. -/
theorem of?_congr {e e' : Expr} (h : e.withoutSpans = e'.withoutSpans) : of? e = of? e' := by
  rw [← of?_withoutSpans e, h, of?_withoutSpans]

/-- All expressions of a shape are equal to themselves: there is no number among them that is none. -/
structure Proper (shape : CallShape) : Prop where
  positional : ∀ e ∈ shape.positional, Expr.same e e = true
  named : ∀ a ∈ shape.named, Expr.same a.2 a.2 = true

theorem list_beq_self {α : Type} [BEq α] {l : List α} (h : ∀ a ∈ l, (a == a) = true) :
    (l == l) = true := by
  induction l with
  | nil => rfl
  | cons a l ih =>
    rw [List.forall_mem_cons] at h
    rw [List.cons_beq_cons, h.1, ih h.2]
    rfl

theorem Proper.beq_self {shape : CallShape} (h : shape.Proper) : (shape == shape) = true := by
  have hPositional : (shape.positional == shape.positional) = true := list_beq_self h.positional
  have hNamed : (shape.named == shape.named) = true := by
    refine list_beq_self fun a ha => ?_
    have hValue : (a.2 == a.2) = true := h.named a ha
    show (a.1 == a.1 && a.2 == a.2) = true
    rw [beq_self_eq_true, hValue]
    rfl
  show (shape.function == shape.function && (shape.positional == shape.positional &&
    shape.named == shape.named)) = true
  rw [beq_self_eq_true, hPositional, hNamed]
  rfl

theorem mem_insertNamed {name : String} {value : Expr} {named : List (String × Expr)}
    {a : String × Expr} (h : a ∈ insertNamed name value named) : a = (name, value) ∨ a ∈ named := by
  fun_induction insertNamed name value named with
  | case1 => simpa using h
  | case2 n v rest hLess => simpa using h
  | case3 => exact Or.inr h
  | case4 n v rest hLess hOther ih =>
    rcases List.mem_cons.mp h with rfl | h
    · simp
    · rcases ih h with h | h
      · exact Or.inl h
      · exact Or.inr (List.mem_cons_of_mem _ h)

theorem Proper.add {shape : CallShape} (h : shape.Proper) {arg : Argument Expr}
    (hArg : Expr.same arg.value.withoutSpans arg.value.withoutSpans = true) :
    (shape.add arg).Proper := by
  rw [CallShape.add]
  split
  · refine ⟨h.positional, fun a ha => ?_⟩
    rcases mem_insertNamed ha with rfl | ha
    · exact hArg
    · exact h.named a ha
  · refine ⟨fun e he => ?_, h.named⟩
    rcases List.mem_append.mp he with he | he
    · exact h.positional e he
    · rwa [List.mem_singleton.mp he]

/-- The shape of a printable call is equal to itself. -/
theorem beq_self_of_printable {e : Expr} (h : e.Printable) {shape : CallShape}
    (hShape : of? e = some shape) : (shape == shape) = true := by
  cases h with
  | @call s function args _ hNames hMissing hGiven =>
    have hEach : ∀ a ∈ args, Expr.same a.value.withoutSpans a.value.withoutSpans = true := by
      intro a ha
      cases hGone : a.isMissing with
      | false => exact (hGiven a ha hGone).same_self
      | true => exact same_self_of_isMissing hGone
    obtain rfl := Option.some.inj hShape
    refine Proper.beq_self ?_
    have hStart : (⟨function, [], []⟩ : CallShape).Proper := ⟨by simp, by simp⟩
    generalize (⟨function, [], []⟩ : CallShape) = shape at hStart
    clear hShape hNames hMissing hGiven
    induction args generalizing shape with
    | nil => exact hStart
    | cons a rest ih =>
      rw [List.forall_mem_cons] at hEach
      exact ih hEach.2 _ (hStart.add hEach.1)
  | _ => cases hShape

/-- The shape of a printable call is read from its text. -/
theorem ofText?_inline {e : Expr} (h : e.Printable) (hCall : e.isCall = true) :
    ofText? (Expr.inline .none e).pretty = of? e := by
  have hPrintable : Bullet.Printable ⟨none, [.inline .none e], .none⟩ :=
    ⟨by simpa using .inline h, List.isChain_singleton _, by simp⟩
  have hStart : Bullet.KeepsStart ⟨none, [.inline .none e], .none⟩ := by
    intro s v hHead
    cases hHead
  obtain ⟨b, hRead, hSame⟩ := (hPrintable.read_iff_of_keyless rfl).mpr hStart
  have hText : (Expr.inline .none e).pretty.toList =
      Bullet.write ⟨none, [.inline .none e], .none⟩ := by
    rw [Expr.pretty, String.toList_ofList]
    simp [Bullet.write, Bullet.writePart]
  rw [ofText?, hText, bulletOrLiteral, hRead]
  obtain ⟨key, parts, span⟩ := b
  simp only [Bullet.withoutSpans, Bullet.mk.injEq, Option.map_none, Option.map_eq_none_iff,
    List.map_cons, List.map_nil] at hSame
  obtain ⟨rfl, hParts, -⟩ := hSame
  obtain ⟨part, rest, rfl, hPart, hRest⟩ := List.map_eq_cons_iff.mp hParts
  obtain rfl := List.map_eq_nil_iff.mp hRest
  cases part with
  | inline s inner =>
    simp only [Expr.withoutSpans, Expr.inline.injEq, true_and] at hPart
    have hInner : inner.isCall = true := by
      rw [← isCall_withoutSpans, hPart, isCall_withoutSpans, hCall]
    simp [Bullet.singleCall?, Bullet.isBlankPart, hInner, of?_congr hPart]
  | _ => cases hPart

end CallShape

/-! ## Formulas of patterns -/

/-- The formulas of a pattern can be written: what it takes from its example can be. -/
structure Writable (p : Pattern) : Prop where
  function : isWord p.function.toList = true
  names : ∀ arg ∈ p.arguments, ∀ n ∈ arg.1, IsArgumentName n
  /-- Only an argument with a name is without a value. -/
  missing : ∀ arg ∈ p.arguments, ∀ e, arg.2 = .literal e → e.isUndefined = true →
    arg.1.isSome = true
  given : ∀ arg ∈ p.arguments, ∀ e, arg.2 = .literal e → e.isUndefined = false → e.Printable

theorem eq_of_ruleFor_literal {t : ScopeTree} (h : t.Rooted) {x : ScopeId} {arg : Argument Expr}
    {e : Expr} (hRule : Pattern.ruleFor t x arg = .literal e) : e = arg.value.withoutSpans := by
  rcases ruleFor_cases h x arg with hLiteral | ⟨hSearch, -⟩
  · rw [hLiteral] at hRule
    cases hRule
    rfl
  · rw [hRule] at hSearch
    exact hSearch.elim

theorem Learned.writable {t : ScopeTree} {functions : Registry} {site beside : ScopeId} {p : Pattern}
    {args : List (Argument Expr)} {place : Nat} {s : Span}
    (h : Learned t functions site p args place beside) (hRooted : t.Rooted)
    (hCall : (Expr.call s p.function args).Printable) : Writable p := by
  cases hCall with
  | call hName hNames hMissing hGiven =>
    have hArguments : ∀ arg ∈ p.arguments, ∃ a ∈ args, arg.1 = a.name ∧
        ∀ e, arg.2 = .literal e → e = a.value.withoutSpans := by
      rw [h.arguments]
      intro arg hArg
      obtain ⟨⟨a, i⟩, hMem, rfl⟩ := List.mem_map.mp hArg
      refine ⟨a, List.fst_mem_of_mem_zipIdx hMem, rfl, fun e he => ?_⟩
      simp only at he
      split at he
      · cases he
      · exact eq_of_ruleFor_literal hRooted he
    refine ⟨hName, ?_, ?_, ?_⟩
    all_goals
      intro arg hArg
      obtain ⟨a, ha, hSame, hLiteral⟩ := hArguments arg hArg
    · exact hSame ▸ hNames a ha
    · intro e he hGone
      rw [hLiteral e he, isUndefined_withoutSpans] at hGone
      exact hSame ▸ hMissing a ha hGone
    · intro e he hSome
      rw [hLiteral e he, isUndefined_withoutSpans] at hSome
      exact hLiteral e he ▸ (hGiven a ha hSome).withoutSpans

theorem mem_of_mapM {α β : Type} {f : α → Option β} {l : List α} {l' : List β}
    (h : l.mapM f = some l') : ∀ b ∈ l', ∃ a ∈ l, f a = some b := by
  induction l generalizing l' with
  | nil =>
    obtain rfl : [] = l' := Option.some.inj h
    simp
  | cons a l ih =>
    rw [List.mapM_cons] at h
    obtain ⟨b, hb, h⟩ := Option.bind_eq_some_iff.mp h
    obtain ⟨rest, hRest, h⟩ := Option.bind_eq_some_iff.mp h
    obtain rfl := Option.some.inj h
    intro c hc
    rcases List.mem_cons.mp hc with rfl | hc
    · exact ⟨a, List.mem_cons_self, hb⟩
    · obtain ⟨a', ha', hSome⟩ := ih hRest c hc
      exact ⟨a', List.mem_cons_of_mem _ ha', hSome⟩

/-- A pattern makes printable formulas where the ids of nodes can be written. -/
theorem Writable.synthesize {t : ScopeTree} {x : ScopeId} {p : Pattern} {formula : Expr}
    (h : Writable p) (hIds : ∀ rule n, Pattern.findNode? t x rule = some n → isTranscludable n = true)
    (hFormula : p.synthesize t x = some formula) : formula.Printable ∧ formula.isCall = true := by
  obtain ⟨args, hArgs, hEq⟩ := Option.bind_eq_some_iff.mp hFormula
  obtain rfl := Option.some.inj hEq
  have hEach : ∀ a ∈ args, ∃ arg ∈ p.arguments, a.name = arg.1 ∧
      ((∃ n, a.value = .reference .none n ∧ isTranscludable n = true) ∨ arg.2 = .literal a.value) := by
    intro a ha
    obtain ⟨arg, hArg, hSome⟩ := mem_of_mapM hArgs a ha
    obtain ⟨value, hValue, hEq⟩ := Option.map_eq_some_iff.mp hSome
    refine ⟨arg, hArg, hEq ▸ rfl, ?_⟩
    rw [← hEq]
    rw [Pattern.argument?.eq_def] at hValue
    split at hValue
    · rename_i e hRule
      rw [hRule, ← Option.some.inj hValue]
      exact Or.inr rfl
    · obtain ⟨n, hn, rfl⟩ := Option.map_eq_some_iff.mp hValue
      exact Or.inl ⟨n, rfl, hIds _ n hn⟩
  refine ⟨.call h.function ?_ ?_ ?_, rfl⟩
  all_goals
    intro a ha
    obtain ⟨arg, hArg, hName, ⟨n, hValue, hId⟩ | hLiteral⟩ := hEach a ha
  · exact hName ▸ h.names arg hArg
  · exact hName ▸ h.names arg hArg
  · rw [Argument.isMissing, hValue]
    nofun
  · exact fun hGone => hName ▸ h.missing arg hArg _ hLiteral hGone
  · exact fun _ => hValue ▸ .reference hId
  · exact fun hGiven => h.given arg hArg _ hLiteral hGiven

end FormulaOutline
