import FormulaOutline.Proofs.Formula.Grammar

/-!
# Every phrase is read

A reader that meets the tokens of a phrase takes exactly these and gives what they stand for. While
an operator or a field may still follow, the reader has got as far as the phrase goes.

* `Follows`: what may stand after the tokens of a phrase.
* `Read`: how the readers take the tokens of a phrase.
* `Derives.read`: they do so for all phrases.
* `parseExpression_of_derives`: the tokens of a sum are parsed.
-/

namespace FormulaOutline.Formula

/-! ## What follows -/

/-- The tokens are at their end or go on with one of the signs. -/
def Follows (signs : List Sign) (rest : List Token) : Prop :=
  ∀ t ∈ rest.head?, ∃ s ∈ signs, t.kind = .sign s

def afterArgument : List Sign := [.rightParen, .comma]

def afterProduct : List Sign := .plus :: .minus :: afterArgument

def afterOperand : List Sign := .star :: .slash :: afterProduct

def afterPrimary : List Sign := .dot :: afterOperand

theorem Follows.mono {small large : List Sign} {rest : List Token} (h : Follows small rest)
    (hSubset : small ⊆ large) : Follows large rest := by
  intro t ht
  obtain ⟨s, hs, hKind⟩ := h t ht
  exact ⟨s, hSubset hs, hKind⟩

theorem follows_cons {signs : List Sign} {t : Token} {s : Sign} (rest : List Token)
    (hKind : t.kind = .sign s) (hSign : s ∈ signs) : Follows signs (t :: rest) := by
  intro t' ht
  cases ht
  exact ⟨s, hSign, hKind⟩

theorem Follows.startsWith_eq_false {signs : List Sign} {rest : List Token} {s : Sign}
    (h : Follows signs rest) (hSign : s ∉ signs) : startsWith s rest = false := by
  cases rest with
  | nil => rfl
  | cons t rest =>
    obtain ⟨s', hs, hKind⟩ := h t rfl
    have hNe : s' ≠ s := fun hSame => hSign (hSame ▸ hs)
    simp [startsWith, Token.sign?_eq_some_iff.2 hKind, hNe]

theorem Follows.endsName {rest : List Token} (h : Follows afterArgument rest) : EndsName rest := by
  cases rest with
  | nil => exact fun t ht => nomatch ht
  | cons t rest =>
    obtain ⟨s, hs, hKind⟩ := h t rfl
    exact endsName_of_sign rest hKind (by rintro rfl; revert hs; decide)

theorem Follows.startsWith_afterArgument {rest : List Token} (h : Follows afterArgument rest)
    (hSome : rest ≠ []) : (startsWith .comma rest || startsWith .rightParen rest) = true := by
  cases rest with
  | nil => exact absurd rfl hSome
  | cons t rest =>
    obtain ⟨s, hs, hKind⟩ := h t rfl
    rw [startsWith, startsWith, List.head?_cons, Option.bind_some,
      Token.sign?_eq_some_iff.2 hKind]
    revert hs
    cases s <;> decide

theorem startsWith_of_kind {t : Token} {s : Sign} (rest : List Token) (h : t.kind = .sign s) :
    startsWith s (t :: rest) = true := by
  simp [startsWith, Token.sign?_eq_some_iff.2 h]

theorem expectSign_of_kind {t : Token} {s : Sign} (rest : List Token) (h : t.kind = .sign s) :
    expectSign s (t :: rest) = .ok (t.span, rest) := by
  rw [expectSign, if_pos (Token.sign?_eq_some_iff.2 h)]

/-! ## Chains of operators -/

section Chains

variable {level : Sign → Option Operator} {reader : Reader Expr}

/-- A chain ends where no operator of its level follows. -/
theorem chain_of_follows {signs : List Sign} {rest : List Token} (fuel : Nat) (e : Expr)
    (hLevel : ∀ s ∈ signs, level s = none) (h : Follows signs rest) :
    chain level reader fuel e rest = .ok (e, rest) := by
  cases fuel with
  | zero => rfl
  | succ fuel =>
    cases rest with
    | nil => rfl
    | cons t rest =>
      obtain ⟨s, hs, hKind⟩ := h t rfl
      simp [chain, Token.sign?_eq_some_iff.2 hKind, hLevel s hs]

/-- A chain goes on with an operator and the operand after it. -/
theorem chain_of_operator {t : Token} {s : Sign} {op : Operator} {ts rest : List Token} {r : Expr}
    (fuel : Nat) (e : Expr) (hKind : t.kind = .sign s) (hLevel : level s = some op)
    (hReader : reader ts = .ok (r, rest)) :
    chain level reader (fuel + 1) e (t :: ts) =
      chain level reader fuel (binaryOver op e r) rest := by
  simp [chain, Token.sign?_eq_some_iff.2 hKind, hLevel, hReader, bind, Except.bind]

theorem leftAssociated_of_operand {ts rest : List Token} {e : Expr}
    (h : reader ts = .ok (e, rest)) :
    leftAssociated level reader ts = chain level reader rest.length e rest := by
  simp [leftAssociated, h, bind, Except.bind]

end Chains

/-- The fields of an object end where no point follows. -/
theorem fields_of_follows {rest : List Token} (e : Expr) (h : Follows afterOperand rest) :
    fields e rest = .ok (e, rest) := by
  have hDot : ∀ t ∈ rest.head?, t.sign? ≠ some .dot := by
    intro t ht hSign
    obtain ⟨s, hs, hKind⟩ := h t ht
    rw [hKind.symm.trans (Token.sign?_eq_some_iff.1 hSign) |> TokenKind.sign.inj] at hs
    revert hs
    decide
  match rest with
  | [] => rfl
  | [t] => rw [fields, if_neg (hDot t rfl)]
  | t :: t' :: rest => rw [fields, if_neg (hDot t rfl)]

theorem fields_of_dot {dot t : Token} {n : String} (rest : List Token) (e : Expr)
    (hDot : dot.kind = .sign .dot) (hName : t.kind = .identifier n) :
    fields e (dot :: t :: rest) =
      fields (.field (e.span.to t.span) e (.string t.span n)) rest := by
  rw [fields, if_pos (Token.sign?_eq_some_iff.2 hDot), hName]

/-! ## Reading phrases -/

/-- Reads a product whose parentheses are nested less than `depth` deep. -/
def productReader (depth : Nat) : Reader Expr :=
  leftAssociated multiplicative? (operand (expression depth))

/-- How a phrase is read whose tokens stand for it, its parentheses nested less deep than it is
long. -/
def Read : Phrase → List Token → Prop
  | .sum e, ts => ∀ depth rest, ts.length ≤ depth → Follows afterProduct rest →
      ∃ e' fuel, e'.withoutSpans = e ∧ rest.length ≤ fuel ∧
        expression (depth + 1) (ts ++ rest) = chain additive? (productReader depth) fuel e' rest
  | .product e, ts => ∀ depth rest, ts.length ≤ depth → Follows afterOperand rest →
      ∃ e' fuel, e'.withoutSpans = e ∧ rest.length ≤ fuel ∧
        productReader depth (ts ++ rest) =
          chain multiplicative? (operand (expression depth)) fuel e' rest
  | .operand e, ts => ∀ depth rest, ts.length ≤ depth → Follows afterPrimary rest →
      ∃ e', e'.withoutSpans = e ∧ operand (expression depth) (ts ++ rest) = fields e' rest
  | .primary e, ts => ∀ depth rest, ts.length ≤ depth → Follows afterPrimary rest →
      ∃ e', e'.withoutSpans = e ∧ primary (expression depth) (ts ++ rest) = .ok (e', rest)
  | .argument a, ts => ∀ depth rest, ts.length < depth → Follows afterArgument rest →
      rest ≠ [] → ∃ a', Expr.argumentsWithoutSpans [a'] = [a] ∧
        argument (expression depth) (ts ++ rest) = .ok (a', rest)
  | .arguments as, ts => ∀ depth fuel close rest, ts.length < depth → ts.length ≤ fuel →
      close.kind = .sign .rightParen → ∃ as', Expr.argumentsWithoutSpans as' = as ∧
        argumentList (expression depth) fuel (ts ++ close :: rest) = .ok (as', close :: rest)

/-- A sum that no operator follows is read to its end. -/
theorem Read.expression {e : Expr} {ts rest : List Token} (depth : Nat) (h : Read (.sum e) ts)
    (hDepth : ts.length < depth) (hRest : Follows afterArgument rest) :
    ∃ e', e'.withoutSpans = e ∧ expression depth (ts ++ rest) = .ok (e', rest) := by
  cases depth with
  | zero => cases hDepth
  | succ depth =>
    obtain ⟨e', fuel, hSame, -, hRead⟩ :=
      h depth rest (Nat.le_of_lt_succ hDepth) (hRest.mono (by decide))
    refine ⟨e', hSame, ?_⟩
    rw [hRead, chain_of_follows fuel e' (by decide) hRest]

theorem Read.product {e : Expr} {ts rest : List Token} (depth : Nat) (h : Read (.product e) ts)
    (hDepth : ts.length ≤ depth) (hRest : Follows afterProduct rest) :
    ∃ e', e'.withoutSpans = e ∧ productReader depth (ts ++ rest) = .ok (e', rest) := by
  obtain ⟨e', fuel, hSame, -, hRead⟩ := h depth rest hDepth (hRest.mono (by decide))
  refine ⟨e', hSame, ?_⟩
  rw [hRead, chain_of_follows fuel e' (by decide) hRest]

theorem Read.operand {e : Expr} {ts rest : List Token} (depth : Nat) (h : Read (.operand e) ts)
    (hDepth : ts.length ≤ depth) (hRest : Follows afterOperand rest) :
    ∃ e', e'.withoutSpans = e ∧
      Formula.operand (Formula.expression depth) (ts ++ rest) = .ok (e', rest) := by
  obtain ⟨e', hSame, hRead⟩ := h depth rest hDepth (hRest.mono (by decide))
  refine ⟨e', hSame, ?_⟩
  rw [hRead, fields_of_follows e' hRest]

/-! ## Sums and products -/

/-- A chain that has come to an operator comes past the operand after it. -/
theorem chain_past_operator {level : Sign → Option Operator} {reader : Reader Expr} {l r : Expr}
    {sign : Token} {s : Sign} {op : Operator} {us rest : List Token}
    {outcome : Except Failure (Expr × List Token)}
    (hL : ∃ l' fuel, l'.withoutSpans = l ∧ (sign :: (us ++ rest)).length ≤ fuel ∧
      outcome = chain level reader fuel l' (sign :: (us ++ rest)))
    (hSign : sign.kind = .sign s) (hOp : level s = some op)
    (hR : ∃ r', r'.withoutSpans = r ∧ reader (us ++ rest) = .ok (r', rest)) :
    ∃ e' fuel, e'.withoutSpans = .binary .none op l r ∧ rest.length ≤ fuel ∧
      outcome = chain level reader fuel e' rest := by
  obtain ⟨l', fuel, hSameL, hFuel, hReadL⟩ := hL
  obtain ⟨r', hSameR, hReadR⟩ := hR
  simp only [List.length_append, List.length_cons] at hFuel
  obtain ⟨fuel, rfl⟩ : ∃ k, fuel = k + 1 := ⟨fuel - 1, by omega⟩
  refine ⟨binaryOver op l' r', fuel, ?_, by omega, ?_⟩
  · rw [binaryOver, Expr.withoutSpans, hSameL, hSameR]
  · rw [hReadL, chain_of_operator fuel l' hSign hOp hReadR]

theorem read_sum {e : Expr} {ts : List Token} (h : Read (.product e) ts) : Read (.sum e) ts := by
  intro depth rest hDepth hRest
  obtain ⟨e', hSame, hRead⟩ := h.product _ hDepth hRest
  exact ⟨e', rest.length, hSame, Nat.le_refl _, leftAssociated_of_operand hRead⟩

theorem read_product {e : Expr} {ts : List Token} (h : Read (.operand e) ts) :
    Read (.product e) ts := by
  intro depth rest hDepth hRest
  obtain ⟨e', hSame, hRead⟩ := h.operand _ hDepth hRest
  exact ⟨e', rest.length, hSame, Nat.le_refl _, leftAssociated_of_operand hRead⟩

theorem read_additive {l r : Expr} {ts us : List Token} {sign : Token} {s : Sign} {op : Operator}
    (hL : Read (.sum l) ts) (hSign : sign.kind = .sign s) (hOp : additive? s = some op)
    (hR : Read (.product r) us) : Read (.sum (.binary .none op l r)) (ts ++ sign :: us) := by
  intro depth rest hDepth hRest
  simp only [List.length_append, List.length_cons] at hDepth
  have hFollows : Follows afterProduct (sign :: (us ++ rest)) :=
    follows_cons _ hSign (by cases s <;> simp_all [additive?, afterProduct])
  rw [List.append_assoc, List.cons_append]
  exact chain_past_operator (hL depth _ (by omega) hFollows) hSign hOp
    (hR.product depth (by omega) hRest)

theorem read_multiplicative {l r : Expr} {ts us : List Token} {sign : Token} {s : Sign}
    {op : Operator} (hL : Read (.product l) ts) (hSign : sign.kind = .sign s)
    (hOp : multiplicative? s = some op) (hR : Read (.operand r) us) :
    Read (.product (.binary .none op l r)) (ts ++ sign :: us) := by
  intro depth rest hDepth hRest
  simp only [List.length_append, List.length_cons] at hDepth
  have hFollows : Follows afterOperand (sign :: (us ++ rest)) :=
    follows_cons _ hSign (by cases s <;> simp_all [multiplicative?, afterOperand])
  rw [List.append_assoc, List.cons_append]
  exact chain_past_operator (hL depth _ (by omega) hFollows) hSign hOp
    (hR.operand depth (by omega) hRest)

/-! ## Operands -/

theorem read_operand {e : Expr} {ts : List Token} (h : Read (.primary e) ts) :
    Read (.operand e) ts := by
  intro depth rest hDepth hRest
  obtain ⟨e', hSame, hRead⟩ := h depth rest hDepth hRest
  refine ⟨e', hSame, ?_⟩
  simp [Formula.operand, hRead, bind, Except.bind]

theorem read_field {e : Expr} {ts : List Token} {dot t : Token} {n : String}
    (h : Read (.operand e) ts) (hDot : dot.kind = .sign .dot) (hName : t.kind = .identifier n) :
    Read (.operand (.field .none e (.string .none n))) (ts ++ [dot, t]) := by
  intro depth rest hDepth hRest
  simp only [List.length_append] at hDepth
  obtain ⟨e', hSame, hRead⟩ :=
    h depth (dot :: t :: rest) (by omega) (follows_cons _ hDot (by decide))
  refine ⟨.field (e'.span.to t.span) e' (.string t.span n), ?_, ?_⟩
  · rw [Expr.withoutSpans, hSame, Expr.withoutSpans]
  · rw [List.append_assoc]
    exact hRead.trans (fields_of_dot rest e' hDot hName)

/-! ## Primaries -/

theorem withoutSpans_withSpan (s : Span) (e : Expr) :
    (e.withSpan s).withoutSpans = e.withoutSpans := by
  cases e <;> rfl

theorem read_parenthesized {e : Expr} {ts : List Token} {before after : Token}
    (hBefore : before.kind = .sign .leftParen) (h : Read (.sum e) ts)
    (hAfter : after.kind = .sign .rightParen) :
    Read (.primary e) (before :: (ts ++ [after])) := by
  intro depth rest hDepth _
  simp only [List.length_append, List.length_cons] at hDepth
  obtain ⟨e', hSame, hRead⟩ := h.expression depth (by omega) (follows_cons rest hAfter (by decide))
  refine ⟨e'.withSpan (before.span.to after.span), ?_, ?_⟩
  · rw [withoutSpans_withSpan, hSame]
  · simp [primary, hBefore, hRead, bind, Except.bind, expectSign_of_kind _ hAfter]

/-- Identifiers in a row are read as one name. -/
theorem primary_of_identifiers {t : Token} {ts rest : List Token} (nested : Reader Expr)
    (hAll : ∀ u ∈ t :: ts, u.identifier?.isSome = true) (hRest : Follows afterPrimary rest) :
    ∃ e', e'.withoutSpans =
        .name .none (" ".intercalate ((t :: ts).filterMap Token.identifier?)) ∧
      primary nested (t :: ts ++ rest) = .ok (e', rest) := by
  obtain ⟨n, hName⟩ := Option.isSome_iff_exists.1 (hAll t List.mem_cons_self)
  have hTail : ∀ u ∈ ts, u.identifier?.isSome = true :=
    fun u hu => hAll u (List.mem_cons_of_mem _ hu)
  have hKind := Token.identifier?_eq_some_iff.1 hName
  have hNoCall : startsWith .leftParen (ts ++ rest) = false := by
    cases ts with
    | nil => exact hRest.startsWith_eq_false (by decide)
    | cons u ts =>
      obtain ⟨m, hNext⟩ := Option.isSome_iff_exists.1 (hTail u List.mem_cons_self)
      simp [startsWith, Token.sign?, Token.identifier?_eq_some_iff.1 hNext]
  have hWords : (ts ++ rest).takeWhile (·.identifier?.isSome) = ts := by
    rw [List.takeWhile_append_of_pos hTail]
    cases rest with
    | nil => simp
    | cons u rest =>
      obtain ⟨s, -, hSign⟩ := hRest u rfl
      simp [Token.identifier?, hSign]
  refine ⟨.name (ts.foldl (fun s u => s.to u.span) t.span)
    (" ".intercalate (n :: ts.filterMap Token.identifier?)), ?_, ?_⟩
  · rw [Expr.withoutSpans, List.filterMap_cons_some hName]
  · simp only [List.cons_append, primary, hKind, nameOrCall, hNoCall, hWords, Bool.false_eq_true,
      if_false, List.drop_left]

/-! ## Calls -/

/-- A call is read from its name to its closing parenthesis. -/
theorem primary_of_call {t before after : Token} {f : String} {ts rest : List Token}
    {as : List (Argument Expr)} (nested : Reader Expr) (hName : t.kind = .identifier f)
    (hBefore : before.kind = .sign .leftParen) (hAfter : after.kind = .sign .rightParen)
    (hArguments : arguments nested (ts ++ after :: rest) = .ok (as, after :: rest)) :
    primary nested (t :: before :: (ts ++ after :: rest)) =
      .ok (.call (t.span.to after.span) f as, rest) := by
  simp only [primary, hName, nameOrCall, startsWith_of_kind _ hBefore, if_true, List.tail_cons,
    hArguments, bind, Except.bind, expectSign_of_kind _ hAfter]

theorem read_emptyCall {t before after : Token} {f : String} (hName : t.kind = .identifier f)
    (hBefore : before.kind = .sign .leftParen) (hAfter : after.kind = .sign .rightParen) :
    Read (.primary (.call .none f [])) [t, before, after] := by
  intro depth rest _ _
  refine ⟨.call (t.span.to after.span) f [], rfl, ?_⟩
  refine @primary_of_call _ _ _ _ [] _ _ _ hName hBefore hAfter ?_
  rw [List.nil_append, arguments, if_pos (startsWith_of_kind _ hAfter)]

theorem read_call {t before after : Token} {f : String} {as : List (Argument Expr)}
    {ts : List Token} (hName : t.kind = .identifier f) (hBefore : before.kind = .sign .leftParen)
    (hDerives : Derives (.arguments as) ts) (h : Read (.arguments as) ts)
    (hAfter : after.kind = .sign .rightParen) :
    Read (.primary (.call .none f as)) (t :: before :: (ts ++ [after])) := by
  intro depth rest hDepth _
  simp only [List.length_append, List.length_cons] at hDepth
  obtain ⟨as', hSame, hRead⟩ := h depth (ts ++ after :: rest).length after rest (by omega)
    (by simp) hAfter
  obtain ⟨u, us, rfl, -, hNotClosed⟩ := hDerives.starts
  have hSome : startsWith .rightParen (u :: us ++ after :: rest) = false := by
    simpa [startsWith, Token.sign?_eq_some_iff] using hNotClosed
  refine ⟨.call (t.span.to after.span) f as', by rw [Expr.withoutSpans, hSame], ?_⟩
  simp only [List.cons_append, List.append_assoc, List.nil_append]
  refine @primary_of_call _ _ _ _ (u :: us) _ _ _ hName hBefore hAfter ?_
  rw [arguments, hSome, if_neg (by decide)]
  exact hRead

/-! ## Arguments -/

theorem argumentsWithoutSpans_cons (a : Argument Expr) (as : List (Argument Expr)) :
    Expr.argumentsWithoutSpans (a :: as) =
      Expr.argumentsWithoutSpans [a] ++ Expr.argumentsWithoutSpans as := by
  obtain ⟨n, v, s⟩ := a
  rfl

theorem argumentKey?_of_keys {first colon : Token} {more : List Token} (rest : List Token)
    (hKeys : ∀ t ∈ first :: more, isKeyToken t = true) (hColon : colon.kind = .sign .colon) :
    argumentKey? (first :: (more ++ colon :: rest)) = some ⟨first, more, colon, rest⟩ := by
  have hMore : ∀ t ∈ more, isKeyToken t = true := fun t ht => hKeys t (List.mem_cons_of_mem _ ht)
  have hNot : isKeyToken colon = false := by rw [isKeyToken, hColon]
  rw [argumentKey?, if_pos (hKeys first List.mem_cons_self),
    List.dropWhile_append_of_pos hMore, List.takeWhile_append_of_pos hMore]
  simp [hNot, Token.sign?_eq_some_iff.2 hColon]

theorem read_positional {e : Expr} {ts : List Token} (hDerives : Derives (.sum e) ts)
    (h : Read (.sum e) ts) : Read (.argument ⟨none, e, .none⟩) ts := by
  intro depth rest hDepth hRest _
  obtain ⟨e', hSame, hRead⟩ := h.expression _ hDepth hRest
  refine ⟨⟨none, e', e'.span⟩, by rw [← hSame]; rfl, ?_⟩
  have hNoName := hDerives.argumentKey?_eq_none rfl hRest.endsName
  simp [argument, hNoName, hRead, bind, Except.bind]

section Named

variable {first colon : Token} {more : List Token}
  (hKeys : ∀ t ∈ first :: more, isKeyToken t = true) (hColon : colon.kind = .sign .colon)
include hKeys hColon

theorem read_named {e : Expr} {ts : List Token} (hDerives : Derives (.sum e) ts)
    (h : Read (.sum e) ts) :
    Read (.argument ⟨some (String.ofList (joinTokens first more)), e, .none⟩)
      (first :: (more ++ colon :: ts)) := by
  intro depth rest hDepth hRest _
  simp only [List.length_append, List.length_cons] at hDepth
  obtain ⟨e', hSame, hRead⟩ := h.expression depth (by omega) hRest
  refine ⟨⟨some (String.ofList (joinTokens first more)), e', first.span.to e'.span⟩,
    by rw [← hSame]; rfl, ?_⟩
  obtain ⟨u, us, rfl, hNotComma, hNotClosed⟩ := hDerives.starts
  have hSome : (startsWith .comma (u :: us ++ rest) ||
      startsWith .rightParen (u :: us ++ rest)) = false := by
    simpa [startsWith, Token.sign?_eq_some_iff] using ⟨hNotComma, hNotClosed⟩
  have hKey := argumentKey?_of_keys (u :: us ++ rest) hKeys hColon
  simp only [List.cons_append, List.append_assoc] at hKey ⊢
  simp only [argument, hKey]
  rw [List.cons_append] at hSome hRead
  rw [hSome, if_neg (by decide), hRead]
  rfl

theorem read_omitted :
    Read (.argument ⟨some (String.ofList (joinTokens first more)), .undefined .none, .none⟩)
      (first :: (more ++ [colon])) := by
  intro depth rest _ hRest hSome
  refine ⟨⟨some (String.ofList (joinTokens first more)), omittedAfter colon.span,
    first.span.to colon.span⟩, rfl, ?_⟩
  have hKey := argumentKey?_of_keys rest hKeys hColon
  have hNone := hRest.startsWith_afterArgument hSome
  simp only [List.cons_append, List.append_assoc, List.nil_append, argument, hKey]
  rw [hNone, if_pos rfl]
  rfl

end Named

theorem read_last {a : Argument Expr} {ts : List Token} (h : Read (.argument a) ts) :
    Read (.arguments [a]) ts := by
  intro depth fuel close rest hDepth _ hClose
  obtain ⟨a', hSame, hRead⟩ :=
    h depth (close :: rest) hDepth (follows_cons rest hClose (by decide)) (by simp)
  refine ⟨[a'], hSame, ?_⟩
  have hNoComma : startsWith .comma (close :: rest) = false := by
    simp [startsWith, Token.sign?_eq_some_iff.2 hClose]
  cases fuel <;> simp [argumentList, hRead, hNoComma, bind, Except.bind]

theorem read_more {a : Argument Expr} {as : List (Argument Expr)} {ts us : List Token}
    {comma : Token} (hFirst : Read (.argument a) ts) (hComma : comma.kind = .sign .comma)
    (hMore : Read (.arguments as) us) : Read (.arguments (a :: as)) (ts ++ comma :: us) := by
  intro depth fuel close rest hDepth hFuel hClose
  simp only [List.length_append, List.length_cons] at hDepth hFuel
  obtain ⟨fuel, rfl⟩ : ∃ k, fuel = k + 1 := ⟨fuel - 1, by omega⟩
  obtain ⟨a', hSame, hRead⟩ := hFirst depth (comma :: (us ++ close :: rest)) (by omega)
    (follows_cons _ hComma (by decide)) (by simp)
  obtain ⟨as', hSameMore, hReadMore⟩ := hMore depth fuel close rest (by omega) (by omega) hClose
  refine ⟨a' :: as', ?_, ?_⟩
  · rw [argumentsWithoutSpans_cons, hSame, hSameMore]
    rfl
  · simp [argumentList, hRead, startsWith_of_kind _ hComma, hReadMore, bind, Except.bind]

/-! ## All phrases -/

theorem Derives.read {p : Phrase} {ts : List Token} (h : Derives p ts) : Read p ts := by
  induction h with
  | sum _ ih => exact read_sum ih
  | additive _ hSign hOp _ ihL ihR => exact read_additive ihL hSign hOp ihR
  | product _ ih => exact read_product ih
  | multiplicative _ hSign hOp _ ihL ihR => exact read_multiplicative ihL hSign hOp ihR
  | operand _ ih => exact read_operand ih
  | field _ hDot hName ih => exact read_field ih hDot hName
  | @string t v hKind =>
    intro depth rest _ _
    exact ⟨.string t.span v, rfl, by simp [primary, hKind]⟩
  | @number t v hKind =>
    intro depth rest _ _
    exact ⟨.number t.span v, rfl, by simp [primary, hKind]⟩
  | @reference t i hKind =>
    intro depth rest _ _
    exact ⟨.reference t.span i, rfl, by simp [primary, hKind]⟩
  | parenthesized hBefore _ hAfter ih => exact read_parenthesized hBefore ih hAfter
  | @name ts hSome hAll =>
    intro depth rest _ hRest
    cases ts with
    | nil => exact absurd rfl hSome
    | cons t ts => exact primary_of_identifiers _ hAll hRest
  | emptyCall hName hBefore hAfter => exact read_emptyCall hName hBefore hAfter
  | call hName hBefore hDerives hAfter ih => exact read_call hName hBefore hDerives ih hAfter
  | positional hDerives ih => exact read_positional hDerives ih
  | named hKeys hColon hDerives ih => exact read_named hKeys hColon hDerives ih
  | omitted hKeys hColon => exact read_omitted hKeys hColon
  | last _ ih => exact read_last ih
  | more _ hComma _ ihFirst ihMore => exact read_more ihFirst hComma ihMore

/-! ## Whole formulas -/

theorem firstInvalid?_eq_none (stop : Text.Position) {ts : List Token}
    (h : ∀ t ∈ ts, t.invalid? = none) : firstInvalid? stop ts = none := by
  induction ts with
  | nil => rfl
  | cons t ts ih =>
    rw [firstInvalid?, h t List.mem_cons_self]
    exact ih fun u hu => h u (List.mem_cons_of_mem _ hu)

/-- Tokens that are a sum are parsed as what they stand for. -/
theorem parseExpression_of_derives {lexed : Lexed} {e : Expr}
    (h : Derives (.sum e) lexed.tokens) :
    ∃ e', parseExpression lexed = .ok e' ∧ e'.withoutSpans = e := by
  obtain ⟨e', hSame, hRead⟩ := @Read.expression _ _ [] _ h.read (Nat.lt_succ_self _)
    (fun t ht => by cases ht)
  refine ⟨e', ?_, hSame⟩
  obtain ⟨t, ts, hTokens, -⟩ := h.starts
  rw [List.append_nil] at hRead
  rw [parseExpression, firstInvalid?_eq_none _ fun t ht => (h.proper t ht).1, hRead, hTokens]
  rfl

end FormulaOutline.Formula
