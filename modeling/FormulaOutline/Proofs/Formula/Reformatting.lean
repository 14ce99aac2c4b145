import FormulaOutline.Proofs.Formula.Acceptance

/-!
# Formulas that are written otherwise

The same formula can be written with other blanks, and its numbers and strings in other ways. Only the
name of an argument is the very text that is written, with a blank where there are some.

* `Reformats`: tokens that say the same, and write the names of arguments alike.
* `Derives.reformats`: such tokens stand for the same phrases.
* `parseExpression_reformats`: a formula that is written otherwise is read as the same expression, up to
  the spans.
-/

namespace FormulaOutline.Formula

/-! ## Tokens that are written otherwise -/

/-- Two tokens look alike as parts of the name of an argument, if they belong to one: then another part
of the name or its colon stands behind them. -/
def AlikeBefore (t u : Token) (ts us : List Token) : Prop :=
  isKeyToken t = true → ∀ t' ∈ ts.head?, ∀ u' ∈ us.head?,
    (isKeyToken t' = true ∨ t'.kind = .sign .colon → t.text = u.text) ∧
      (isKeyToken t' = true → (t.span.stop = t'.span.start ↔ u.span.stop = u'.span.start))

/-- Tokens that say the same, one after the other, and look alike in the names of arguments. -/
inductive Reformats : List Token → List Token → Prop
  | nil : Reformats [] []
  | cons {t u ts us} (hKind : t.kind = u.kind) (hAlike : AlikeBefore t u ts us)
      (hRest : Reformats ts us) : Reformats (t :: ts) (u :: us)

deriving instance DecidableEq for TokenKind

instance (t u : Token) (ts us : List Token) : Decidable (AlikeBefore t u ts us) :=
  inferInstanceAs (Decidable (isKeyToken t = true → ∀ t' ∈ ts.head?, ∀ u' ∈ us.head?,
    (isKeyToken t' = true ∨ t'.kind = .sign .colon → t.text = u.text) ∧
      (isKeyToken t' = true → (t.span.stop = t'.span.start ↔ u.span.stop = u'.span.start))))

instance Reformats.decidable : (ts us : List Token) → Decidable (Reformats ts us)
  | [], [] => isTrue .nil
  | [], _ :: _ | _ :: _, [] => isFalse nofun
  | t :: ts, u :: us =>
    have := decidable ts us
    decidable_of_iff (t.kind = u.kind ∧ AlikeBefore t u ts us ∧ Reformats ts us)
      ⟨fun ⟨hKind, hAlike, hRest⟩ => .cons hKind hAlike hRest,
        fun | .cons hKind hAlike hRest => ⟨hKind, hAlike, hRest⟩⟩

variable {t u first colon : Token} {ts us ts' more : List Token}

theorem identifier?_congr (h : t.kind = u.kind) : t.identifier? = u.identifier? := by
  rw [Token.identifier?, Token.identifier?, h]

theorem isKeyToken_congr (h : t.kind = u.kind) : isKeyToken t = isKeyToken u := by
  rw [isKeyToken, isKeyToken, h]

namespace Reformats

theorem kinds (h : Reformats ts us) : us.map Token.kind = ts.map Token.kind := by
  induction h with
  | nil => rfl
  | cons hKind _ _ ih => rw [List.map_cons, List.map_cons, hKind, ih]

theorem exists_append (h : Reformats (ts ++ ts') us) :
    ∃ us₁ us₂, us = us₁ ++ us₂ ∧ Reformats ts us₁ ∧ Reformats ts' us₂ := by
  induction ts generalizing us with
  | nil => exact ⟨[], us, rfl, .nil, h⟩
  | cons t ts ih =>
    cases h with
    | @cons _ u _ us hKind hAlike hRest =>
      obtain ⟨us₁, us₂, rfl, hLeft, hRight⟩ := ih hRest
      refine ⟨u :: us₁, us₂, rfl, .cons hKind ?_ hLeft, hRight⟩
      -- The next token is the same, unless there is none.
      intro hKey t' ht' u' hu'
      have hHead : ∀ {v} {vs vs' : List Token}, v ∈ vs.head? → v ∈ (vs ++ vs').head? := by
        intro v vs vs' hv
        rw [List.head?_append, Option.mem_def.mp hv]
        rfl
      exact hAlike hKey t' (hHead ht') u' (hHead hu')

theorem names (h : Reformats ts us) :
    ts.filterMap Token.identifier? = us.filterMap Token.identifier? := by
  induction h with
  | nil => rfl
  | cons hKind _ _ ih => rw [List.filterMap_cons, List.filterMap_cons, identifier?_congr hKind, ih]

/-- The name of an argument and what stands behind its colon. -/
theorem exists_key (hKeys : ∀ t ∈ first :: more, isKeyToken t = true)
    (hColon : colon.kind = .sign .colon) (h : Reformats (first :: (more ++ colon :: ts)) us) :
    ∃ first' more' colon' us', us = first' :: (more' ++ colon' :: us') ∧
      (∀ t ∈ first' :: more', isKeyToken t = true) ∧ colon'.kind = .sign .colon ∧
      joinTokens first more = joinTokens first' more' ∧ Reformats ts us' := by
  induction more generalizing first us with
  | nil =>
    obtain _ | ⟨hFirst, hAlike, _ | ⟨hPoint, -, hRest⟩⟩ := h
    refine ⟨_, [], _, _, rfl, ?_, hPoint ▸ hColon, ?_, hRest⟩
    · rw [List.forall_mem_singleton, ← isKeyToken_congr hFirst]
      exact hKeys _ List.mem_cons_self
    · exact (hAlike (hKeys _ List.mem_cons_self) _ rfl _ rfl).1 (Or.inr hColon)
  | cons next more ih =>
    cases h with
    | @cons _ first' _ us hFirst hAlike hRest =>
      rw [List.forall_mem_cons] at hKeys
      obtain ⟨next', more', colon', us', rfl, hKeys', hColon', hName, hRest⟩ := ih hKeys.2 hRest
      obtain ⟨hText, hAdjacent⟩ := hAlike hKeys.1 next rfl next' rfl
      have hNext := hKeys.2 next List.mem_cons_self
      refine ⟨first', next' :: more', colon', us', rfl, ?_, hColon', ?_, hRest⟩
      · rw [List.forall_mem_cons, ← isKeyToken_congr hFirst]
        exact ⟨hKeys.1, hKeys'⟩
      · rw [joinTokens, joinTokens, hText (Or.inl hNext), hName]
        exact if_congr (hAdjacent hNext) rfl rfl

end Reformats

/-! ## Phrases -/

/-- Tokens that are written otherwise stand for the same. -/
theorem Derives.reformats {p : Phrase} (h : Derives p ts) (hOther : Reformats ts us) :
    Derives p us := by
  induction h generalizing us with
  | sum _ ih => exact .sum (ih hOther)
  | product _ ih => exact .product (ih hOther)
  | operand _ ih => exact .operand (ih hOther)
  | positional _ ih => exact .positional (ih hOther)
  | last _ ih => exact .last (ih hOther)
  | additive _ hSign hOp _ ihL ihR =>
    obtain ⟨us₁, us₂, rfl, hLeft, _ | ⟨hKind, -, hRight⟩⟩ := hOther.exists_append
    exact .additive (ihL hLeft) (hKind ▸ hSign) hOp (ihR hRight)
  | multiplicative _ hSign hOp _ ihL ihR =>
    obtain ⟨us₁, us₂, rfl, hLeft, _ | ⟨hKind, -, hRight⟩⟩ := hOther.exists_append
    exact .multiplicative (ihL hLeft) (hKind ▸ hSign) hOp (ihR hRight)
  | field _ hDot hName ih =>
    obtain ⟨us₁, us₂, rfl, hLeft, _ | ⟨hPoint, -, _ | ⟨hField, -, _ | _⟩⟩⟩ := hOther.exists_append
    exact .field (ih hLeft) (hPoint ▸ hDot) (hField ▸ hName)
  | string hKind =>
    obtain _ | ⟨hToken, -, _ | _⟩ := hOther
    exact .string (hToken ▸ hKind)
  | number hKind =>
    obtain _ | ⟨hToken, -, _ | _⟩ := hOther
    exact .number (hToken ▸ hKind)
  | reference hKind =>
    obtain _ | ⟨hToken, -, _ | _⟩ := hOther
    exact .reference (hToken ▸ hKind)
  | parenthesized hBefore _ hAfter ih =>
    obtain _ | ⟨hOpen, -, hMore⟩ := hOther
    obtain ⟨us₁, us₂, rfl, hInside, _ | ⟨hClose, -, _ | _⟩⟩ := hMore.exists_append
    exact .parenthesized (hOpen ▸ hBefore) (ih hInside) (hClose ▸ hAfter)
  | name hSome hAll =>
    rw [hOther.names]
    have hKinds := hOther.kinds
    refine .name (fun hNone => hSome ?_) fun u hu => ?_
    · rw [hNone] at hKinds
      exact List.map_eq_nil_iff.mp hKinds.symm
    · obtain ⟨t, ht, hKind⟩ := List.mem_map.mp (hKinds ▸ List.mem_map_of_mem hu)
      rw [← identifier?_congr hKind]
      exact hAll t ht
  | emptyCall hName hBefore hAfter =>
    obtain _ | ⟨hFirst, -, _ | ⟨hOpen, -, _ | ⟨hClose, -, _ | _⟩⟩⟩ := hOther
    exact .emptyCall (hFirst ▸ hName) (hOpen ▸ hBefore) (hClose ▸ hAfter)
  | call hName hBefore _ hAfter ih =>
    obtain _ | ⟨hFirst, -, _ | ⟨hOpen, -, hMore⟩⟩ := hOther
    obtain ⟨us₁, us₂, rfl, hInside, _ | ⟨hClose, -, _ | _⟩⟩ := hMore.exists_append
    exact .call (hFirst ▸ hName) (hOpen ▸ hBefore) (ih hInside) (hClose ▸ hAfter)
  | named hKeys hColon _ ih =>
    obtain ⟨first', more', colon', us', rfl, hKeys', hColon', hName, hValue⟩ :=
      hOther.exists_key hKeys hColon
    rw [hName]
    exact .named hKeys' hColon' (ih hValue)
  | omitted hKeys hColon =>
    obtain ⟨first', more', colon', us', rfl, hKeys', hColon', hName, _ | _⟩ :=
      hOther.exists_key hKeys hColon
    rw [hName]
    exact .omitted hKeys' hColon'
  | more _ hComma _ ihFirst ihMore =>
    obtain ⟨us₁, us₂, rfl, hLeft, _ | ⟨hKind, -, hRight⟩⟩ := hOther.exists_append
    exact .more (ihFirst hLeft) (hKind ▸ hComma) (ihMore hRight)

/-- A formula that is written otherwise is read as the same expression, up to the spans. -/
theorem parseExpression_reformats {lexed lexed' : Lexed} {e : Expr} (h : parseExpression lexed = .ok e)
    (hOther : Reformats lexed.tokens lexed'.tokens) :
    ∃ e', parseExpression lexed' = .ok e' ∧ e'.withoutSpans = e.withoutSpans :=
  parseExpression_of_derives ((derives_of_parseExpression h).reformats hOther)

end FormulaOutline.Formula
