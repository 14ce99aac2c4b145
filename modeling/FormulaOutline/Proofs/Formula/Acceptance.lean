import FormulaOutline.Proofs.Formula.Parsing
import Mathlib.Data.List.TakeWhile

/-!
# Only phrases are read

What a reader takes from the front of the tokens is a phrase, and its result is what the phrase
stands for. Together with `Derives.read` the readers accept the grammar and nothing else.

* `Builds`: the tokens of a phrase again, now with the spans that the readers give to expressions.
* `Takes`: a reader takes only tokens that its result stands for.
* `takes_expression`: formulas are sums.
* `Derives.unique`: the tokens of a sum stand for one expression only.
* `parseExpression_eq_ok_iff`: the tokens that are parsed are those of sums.
-/

namespace FormulaOutline.Formula

theorem bind_eq_ok {ε α β : Type} {x : Except ε α} {f : α → Except ε β} {b : β} :
    x >>= f = .ok b ↔ ∃ a, x = .ok a ∧ f a = .ok b := by
  cases x with
  | error e => simp [bind, Except.bind]
  | ok a => simp [bind, Except.bind]

/-! ## Phrases with their spans -/

def Phrase.withoutSpans : Phrase → Phrase
  | .sum e => .sum e.withoutSpans
  | .product e => .product e.withoutSpans
  | .operand e => .operand e.withoutSpans
  | .primary e => .primary e.withoutSpans
  | .argument a => .argument ⟨a.name, a.value.withoutSpans, .none⟩
  | .arguments as => .arguments (Expr.argumentsWithoutSpans as)

/-- The tokens of a phrase with the spans that are made of the spans of the tokens. A constructor
differs from that of `Derives` in the spans alone. -/
inductive Builds : Phrase → List Token → Prop
  | sum {e ts} : Builds (.product e) ts → Builds (.sum e) ts
  | additive {l r ts us sign s op} : Builds (.sum l) ts → sign.kind = .sign s →
      additive? s = some op → Builds (.product r) us →
      Builds (.sum (binaryOver op l r)) (ts ++ sign :: us)
  | product {e ts} : Builds (.operand e) ts → Builds (.product e) ts
  | multiplicative {l r ts us sign s op} : Builds (.product l) ts → sign.kind = .sign s →
      multiplicative? s = some op → Builds (.operand r) us →
      Builds (.product (binaryOver op l r)) (ts ++ sign :: us)
  | operand {e ts} : Builds (.primary e) ts → Builds (.operand e) ts
  | field {e ts dot t n} : Builds (.operand e) ts → dot.kind = .sign .dot →
      t.kind = .identifier n →
      Builds (.operand (.field (e.span.to t.span) e (.string t.span n))) (ts ++ [dot, t])
  | string {t v} : t.kind = .string v → Builds (.primary (.string t.span v)) [t]
  | number {t v} : t.kind = .number v → Builds (.primary (.number t.span v)) [t]
  | reference {t i} : t.kind = .reference i → Builds (.primary (.reference t.span i)) [t]
  | parenthesized {e ts before after} : before.kind = .sign .leftParen → Builds (.sum e) ts →
      after.kind = .sign .rightParen →
      Builds (.primary (e.withSpan (before.span.to after.span))) (before :: (ts ++ [after]))
  | name {t n ts} : t.kind = .identifier n → (∀ u ∈ ts, u.identifier?.isSome = true) →
      Builds (.primary (.name (ts.foldl (fun s u => s.to u.span) t.span)
        (" ".intercalate (n :: ts.filterMap Token.identifier?)))) (t :: ts)
  | emptyCall {t f before after} : t.kind = .identifier f → before.kind = .sign .leftParen →
      after.kind = .sign .rightParen →
      Builds (.primary (.call (t.span.to after.span) f [])) [t, before, after]
  | call {t f before as ts after} : t.kind = .identifier f → before.kind = .sign .leftParen →
      Builds (.arguments as) ts → after.kind = .sign .rightParen →
      Builds (.primary (.call (t.span.to after.span) f as)) (t :: before :: (ts ++ [after]))
  | positional {e ts} : Builds (.sum e) ts → Builds (.argument ⟨none, e, e.span⟩) ts
  | named {first more colon e ts} : (∀ t ∈ first :: more, isKeyToken t = true) →
      colon.kind = .sign .colon → Builds (.sum e) ts →
      Builds (.argument ⟨some (String.ofList (joinTokens first more)), e, first.span.to e.span⟩)
        (first :: (more ++ colon :: ts))
  | omitted {first more colon} : (∀ t ∈ first :: more, isKeyToken t = true) →
      colon.kind = .sign .colon →
      Builds (.argument ⟨some (String.ofList (joinTokens first more)), omittedAfter colon.span,
        first.span.to colon.span⟩) (first :: (more ++ [colon]))
  | last {a ts} : Builds (.argument a) ts → Builds (.arguments [a]) ts
  | more {a as ts comma us} : Builds (.argument a) ts → comma.kind = .sign .comma →
      Builds (.arguments as) us → Builds (.arguments (a :: as)) (ts ++ comma :: us)

/-- A phrase stands for the same without its spans. -/
theorem Builds.derives {p : Phrase} {ts : List Token} (h : Builds p ts) :
    Derives p.withoutSpans ts := by
  induction h with
  | sum _ ih => exact .sum ih
  | additive _ hSign hOp _ ihL ihR => exact .additive ihL hSign hOp ihR
  | product _ ih => exact .product ih
  | multiplicative _ hSign hOp _ ihL ihR => exact .multiplicative ihL hSign hOp ihR
  | operand _ ih => exact .operand ih
  | field _ hDot hName ih => exact .field ih hDot hName
  | string hKind => exact .string hKind
  | number hKind => exact .number hKind
  | reference hKind => exact .reference hKind
  | parenthesized hBefore _ hAfter ih =>
    rw [Phrase.withoutSpans, withoutSpans_withSpan]
    exact .parenthesized hBefore ih hAfter
  | @name t n ts hName hAll =>
    have hWord := Token.identifier?_eq_some_iff.2 hName
    have hDerives := Derives.name (List.cons_ne_nil t ts)
      (List.forall_mem_cons.2 ⟨by rw [hWord]; rfl, hAll⟩)
    rwa [List.filterMap_cons_some hWord] at hDerives
  | emptyCall hName hBefore hAfter => exact .emptyCall hName hBefore hAfter
  | call hName hBefore _ hAfter ih => exact .call hName hBefore ih hAfter
  | positional _ ih => exact .positional ih
  | named hKeys hColon _ ih => exact .named hKeys hColon ih
  | omitted hKeys hColon => exact .omitted hKeys hColon
  | last _ ih => exact .last ih
  | more _ hComma _ ihFirst ihMore => exact .more ihFirst hComma ihMore

/-! ## Readers and their phrases -/

/-- Whatever the reader gives stands for the tokens that it took. -/
def Takes {α : Type} (reader : Reader α) (Means : α → List Token → Prop) : Prop :=
  ∀ ts a rest, reader ts = .ok (a, rest) → ∃ us, ts = us ++ rest ∧ Means a us

theorem startsWith_eq_true {s : Sign} {ts : List Token} (h : startsWith s ts = true) :
    ∃ t rest, ts = t :: rest ∧ t.kind = .sign s := by
  cases ts with
  | nil => cases h
  | cons t rest =>
    refine ⟨t, rest, rfl, Token.sign?_eq_some_iff.1 ?_⟩
    simpa [startsWith] using h

theorem expectSign_eq_ok {s : Sign} {ts rest : List Token} {span : Span}
    (h : expectSign s ts = .ok (span, rest)) :
    ∃ t, ts = t :: rest ∧ t.kind = .sign s ∧ t.span = span := by
  cases ts with
  | nil => cases h
  | cons t ts =>
    rw [expectSign] at h
    split at h
    · rename_i hSign
      cases h
      exact ⟨t, rfl, Token.sign?_eq_some_iff.1 hSign, rfl⟩
    · cases h

/-! ## Chains -/

section Chains

variable {level : Sign → Option Operator} {reader : Reader Expr} {upper lower : Expr → Phrase}
  (hOne : ∀ {e ts}, Builds (lower e) ts → Builds (upper e) ts)
  (hMore : ∀ {l r ts us sign s op}, Builds (upper l) ts → sign.kind = .sign s →
    level s = some op → Builds (lower r) us →
    Builds (upper (binaryOver op l r)) (ts ++ sign :: us))
  (hReader : Takes reader fun e => Builds (lower e))

include hMore hReader in
/-- A chain lengthens the phrase before it. -/
theorem chain_takes (fuel : Nat) {before : List Token} {lhs : Expr}
    (hBefore : Builds (upper lhs) before) :
    Takes (chain level reader fuel lhs) fun e us => Builds (upper e) (before ++ us) := by
  induction fuel generalizing before lhs with
  | zero =>
    intro ts e rest h
    rw [chain] at h
    cases h
    exact ⟨[], rfl, by simpa using hBefore⟩
  | succ fuel ih =>
    intro ts e rest h
    cases ts with
    | nil =>
      rw [chain] at h
      · cases h
        exact ⟨[], rfl, by simpa using hBefore⟩
      · exact Nat.succ_ne_zero fuel
    | cons sign ts =>
      rw [chain] at h
      split at h
      · cases h
        exact ⟨[], rfl, by simpa using hBefore⟩
      · rename_i op hOp
        obtain ⟨s, hSign, hLevel⟩ := Option.bind_eq_some_iff.1 hOp
        obtain ⟨⟨rhs, ts'⟩, hRhs, hChain⟩ := bind_eq_ok.1 h
        obtain ⟨us, rfl, hUs⟩ := hReader ts rhs ts' hRhs
        have hLonger : Builds (upper (binaryOver op lhs rhs)) (before ++ sign :: us) :=
          hMore hBefore (Token.sign?_eq_some_iff.1 hSign) hLevel hUs
        obtain ⟨vs, rfl, hVs⟩ := ih hLonger ts' e rest hChain
        refine ⟨sign :: (us ++ vs), by simp, ?_⟩
        simpa using hVs

include hOne hMore hReader in
theorem leftAssociated_takes : Takes (leftAssociated level reader) fun e => Builds (upper e) := by
  intro ts e rest h
  obtain ⟨⟨lhs, ts'⟩, hLhs, hChain⟩ := bind_eq_ok.1 h
  obtain ⟨us, rfl, hUs⟩ := hReader ts lhs ts' hLhs
  obtain ⟨vs, rfl, hVs⟩ := chain_takes hMore hReader _ (hOne hUs) ts' e rest hChain
  exact ⟨us ++ vs, by rw [List.append_assoc], hVs⟩

end Chains

/-! ## Fields -/

/-- Fields lengthen the operand before them. -/
theorem fields_takes {before : List Token} {object : Expr} (h : Builds (.operand object) before) :
    Takes (fields object) fun e us => Builds (.operand e) (before ++ us) := by
  intro ts e rest hFields
  fun_induction fields object ts generalizing before with
  | case1 object dot t ts hDot name hName ih =>
    have hLonger := Builds.field h (Token.sign?_eq_some_iff.1 hDot) hName
    obtain ⟨us, rfl, hUs⟩ := ih hLonger hFields
    exact ⟨dot :: t :: us, rfl, by simpa using hUs⟩
  | case2 | case4 => cases hFields
  | case3 | case5 | case6 =>
    cases hFields
    exact ⟨[], rfl, by simpa using h⟩

/-! ## Arguments -/

theorem argumentKey?_eq_some {ts : List Token} {key : ArgumentKey}
    (h : argumentKey? ts = some key) :
    ts = key.first :: (key.more ++ key.colon :: key.rest) ∧
      (∀ t ∈ key.first :: key.more, isKeyToken t = true) ∧ key.colon.kind = .sign .colon := by
  cases ts with
  | nil => cases h
  | cons first ts =>
    rw [argumentKey?] at h
    split at h
    · rename_i hFirst
      split at h
      · rename_i colon after hDrop
        split at h
        · rename_i hColon
          cases h
          refine ⟨?_, ?_, Token.sign?_eq_some_iff.1 hColon⟩
          · rw [← hDrop, List.takeWhile_append_dropWhile]
          · intro t ht
            rcases List.mem_cons.1 ht with rfl | ht
            · exact hFirst
            · exact List.mem_takeWhile_imp ht
        · cases h
      · cases h
    · cases h

section Nested

variable {nested : Reader Expr} (hNested : Takes nested fun e => Builds (.sum e))
include hNested

theorem argument_takes : Takes (argument nested) fun a => Builds (.argument a) := by
  intro ts a rest h
  rw [argument] at h
  split at h
  · obtain ⟨⟨value, ts'⟩, hValue, hDone⟩ := bind_eq_ok.1 h
    cases hDone
    obtain ⟨us, rfl, hUs⟩ := hNested ts value _ hValue
    exact ⟨us, rfl, .positional hUs⟩
  · rename_i key hKey
    obtain ⟨rfl, hKeys, hColon⟩ := argumentKey?_eq_some hKey
    dsimp only at h
    split at h
    · cases h
      exact ⟨key.first :: (key.more ++ [key.colon]), by simp, .omitted hKeys hColon⟩
    · obtain ⟨⟨value, ts'⟩, hValue, hDone⟩ := bind_eq_ok.1 h
      cases hDone
      obtain ⟨us, hRest, hUs⟩ := hNested key.rest value _ hValue
      exact ⟨key.first :: (key.more ++ key.colon :: us), by simp [hRest],
        .named hKeys hColon hUs⟩

theorem argumentList_takes (fuel : Nat) :
    Takes (argumentList nested fuel) fun as => Builds (.arguments as) := by
  induction fuel with
  | zero =>
    intro ts as rest h
    rw [argumentList] at h
    obtain ⟨⟨first, ts'⟩, hFirst, hDone⟩ := bind_eq_ok.1 h
    cases hDone
    obtain ⟨us, rfl, hUs⟩ := argument_takes hNested ts first _ hFirst
    exact ⟨us, rfl, .last hUs⟩
  | succ fuel ih =>
    intro ts as rest h
    rw [argumentList] at h
    obtain ⟨⟨first, ts'⟩, hFirst, hMore⟩ := bind_eq_ok.1 h
    obtain ⟨us, rfl, hUs⟩ := argument_takes hNested ts first _ hFirst
    dsimp only at hMore
    split at hMore
    · rename_i hStart
      obtain ⟨comma, vs, rfl, hComma⟩ := startsWith_eq_true hStart
      obtain ⟨⟨more, ts'⟩, hTail, hDone⟩ := bind_eq_ok.1 hMore
      cases hDone
      obtain ⟨vs, rfl, hVs⟩ := ih vs more _ hTail
      exact ⟨us ++ comma :: vs, by simp, .more hUs hComma hVs⟩
    · cases hMore
      exact ⟨us, rfl, .last hUs⟩

/-! ## Operands -/

theorem nameOrCall_takes {t : Token} {name : String} (hName : t.kind = .identifier name) :
    Takes (nameOrCall nested t.span name) fun e us => Builds (.primary e) (t :: us) := by
  intro ts e rest h
  rw [nameOrCall] at h
  split at h
  · rename_i hOpen
    obtain ⟨before, ts, rfl, hBefore⟩ := startsWith_eq_true hOpen
    obtain ⟨⟨as, ts'⟩, hArguments, hClose⟩ := bind_eq_ok.1 h
    obtain ⟨⟨span, ts''⟩, hClose, hDone⟩ := bind_eq_ok.1 hClose
    cases hDone
    obtain ⟨after, rfl, hAfter, rfl⟩ := expectSign_eq_ok hClose
    rw [List.tail_cons, arguments] at hArguments
    split at hArguments
    · cases hArguments
      exact ⟨[before, after], rfl, .emptyCall hName hBefore hAfter⟩
    · obtain ⟨us, rfl, hUs⟩ := argumentList_takes hNested _ ts as _ hArguments
      exact ⟨before :: (us ++ [after]), by simp, .call hName hBefore hUs hAfter⟩
  · cases h
    refine ⟨ts.takeWhile (·.identifier?.isSome), ?_, .name hName fun u hu => ?_⟩
    · exact (List.prefix_iff_eq_append.1 (List.takeWhile_prefix _)).symm
    · exact List.mem_takeWhile_imp (p := fun v : Token => v.identifier?.isSome) hu

theorem primary_takes : Takes (primary nested) fun e => Builds (.primary e) := by
  intro ts e rest h
  cases ts with
  | nil => cases h
  | cons t ts =>
    rw [primary] at h
    split at h
    · rename_i value hKind
      cases h
      exact ⟨[t], rfl, .string hKind⟩
    · rename_i value hKind
      cases h
      exact ⟨[t], rfl, .number hKind⟩
    · rename_i id hKind
      cases h
      exact ⟨[t], rfl, .reference hKind⟩
    · rename_i hKind
      obtain ⟨⟨inner, ts'⟩, hInner, hClose⟩ := bind_eq_ok.1 h
      obtain ⟨⟨span, ts''⟩, hClose, hDone⟩ := bind_eq_ok.1 hClose
      cases hDone
      obtain ⟨after, rfl, hAfter, rfl⟩ := expectSign_eq_ok hClose
      obtain ⟨us, rfl, hUs⟩ := hNested ts inner _ hInner
      exact ⟨t :: (us ++ [after]), by simp, .parenthesized hKind hUs hAfter⟩
    · rename_i name hKind
      obtain ⟨us, rfl, hUs⟩ := nameOrCall_takes hNested hKind ts e rest h
      exact ⟨t :: us, rfl, hUs⟩
    · cases h

theorem operand_takes : Takes (operand nested) fun e => Builds (.operand e) := by
  intro ts e rest h
  obtain ⟨⟨object, ts'⟩, hObject, hFields⟩ := bind_eq_ok.1 h
  obtain ⟨us, rfl, hUs⟩ := primary_takes hNested ts object ts' hObject
  obtain ⟨vs, rfl, hVs⟩ := fields_takes (.operand hUs) ts' e rest hFields
  exact ⟨us ++ vs, by rw [List.append_assoc], hVs⟩

end Nested

/-! ## Formulas -/

/-- A formula that is read is a sum, however deep its parentheses are nested. -/
theorem takes_expression (depth : Nat) : Takes (expression depth) fun e => Builds (.sum e) := by
  induction depth with
  | zero =>
    intro ts e rest h
    cases h
  | succ depth ih =>
    exact leftAssociated_takes .sum .additive
      (leftAssociated_takes .product .multiplicative (operand_takes ih))

/-- The tokens of a sum stand for one expression only. -/
theorem Derives.unique {e e' : Expr} {ts : List Token} (h : Derives (.sum e) ts)
    (h' : Derives (.sum e') ts) : e = e' := by
  have hEnd : Follows afterArgument [] := fun t ht => by cases ht
  obtain ⟨f, rfl, hRead⟩ := Read.expression (ts.length + 1) h.read (Nat.lt_succ_self _) hEnd
  obtain ⟨f', rfl, hRead'⟩ := Read.expression (ts.length + 1) h'.read (Nat.lt_succ_self _) hEnd
  cases hRead.symm.trans hRead'
  rfl

/-- What is parsed are the tokens of a sum. -/
theorem builds_of_parseExpression {lexed : Lexed} {e : Expr}
    (h : parseExpression lexed = .ok e) : Builds (.sum e) lexed.tokens := by
  rw [parseExpression] at h
  split at h
  · cases h
  · split at h
    · cases h
    · split at h
      · cases h
      · rename_i e' hRead
        cases h
        obtain ⟨us, hTokens, hUs⟩ := takes_expression _ _ _ _ hRead
        rw [List.append_nil] at hTokens
        rwa [hTokens]
      · cases h

theorem derives_of_parseExpression {lexed : Lexed} {e : Expr}
    (h : parseExpression lexed = .ok e) : Derives (.sum e.withoutSpans) lexed.tokens :=
  (builds_of_parseExpression h).derives

/-- The tokens that are parsed are those of sums, and what they stand for is what they are parsed
as. -/
theorem parseExpression_eq_ok_iff {lexed : Lexed} {e : Expr} :
    (∃ e', parseExpression lexed = .ok e' ∧ e'.withoutSpans = e) ↔
      Derives (.sum e) lexed.tokens := by
  constructor
  · rintro ⟨e', hParse, rfl⟩
    exact derives_of_parseExpression hParse
  · exact parseExpression_of_derives

end FormulaOutline.Formula
