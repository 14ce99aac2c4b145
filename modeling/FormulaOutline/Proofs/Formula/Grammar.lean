import FormulaOutline.Formula.Parser

/-!
# The grammar of formulas

What a list of tokens stands for, apart from how it is read.

* `Derives`: the tokens of a phrase; the expressions in it have no spans.
* `Derives.proper`: no token of a phrase is invalid, and none is a brace.
* `Derives.starts`: no phrase starts with a sign that ends one.
* `Derives.argumentKey?_eq_none`: no formula looks like the name of an argument.
-/

namespace FormulaOutline.Formula

/-! ## Phrases -/

/-- The kinds of phrases, from the loosest to the tightest, and the parts of calls. -/
inductive Phrase
  | sum (e : Expr)
  | product (e : Expr)
  | operand (e : Expr)
  | primary (e : Expr)
  | argument (a : Argument Expr)
  /-- One or more arguments with commas between them. -/
  | arguments (as : List (Argument Expr))

/-- The tokens of a phrase. Operators of one level group to the left, a name is all the identifiers
in a row, and parentheses leave only what they hold. -/
inductive Derives : Phrase → List Token → Prop
  | sum {e ts} : Derives (.product e) ts → Derives (.sum e) ts
  | additive {l r ts us sign s op} : Derives (.sum l) ts → sign.kind = .sign s →
      additive? s = some op → Derives (.product r) us →
      Derives (.sum (.binary .none op l r)) (ts ++ sign :: us)
  | product {e ts} : Derives (.operand e) ts → Derives (.product e) ts
  | multiplicative {l r ts us sign s op} : Derives (.product l) ts → sign.kind = .sign s →
      multiplicative? s = some op → Derives (.operand r) us →
      Derives (.product (.binary .none op l r)) (ts ++ sign :: us)
  | operand {e ts} : Derives (.primary e) ts → Derives (.operand e) ts
  | field {e ts dot t n} : Derives (.operand e) ts → dot.kind = .sign .dot →
      t.kind = .identifier n →
      Derives (.operand (.field .none e (.string .none n))) (ts ++ [dot, t])
  | string {t v} : t.kind = .string v → Derives (.primary (.string .none v)) [t]
  | number {t v} : t.kind = .number v → Derives (.primary (.number .none v)) [t]
  | reference {t i} : t.kind = .reference i → Derives (.primary (.reference .none i)) [t]
  | parenthesized {e ts before after} : before.kind = .sign .leftParen → Derives (.sum e) ts →
      after.kind = .sign .rightParen → Derives (.primary e) (before :: (ts ++ [after]))
  | name {ts} : ts ≠ [] → (∀ t ∈ ts, t.identifier?.isSome = true) →
      Derives (.primary (.name .none (" ".intercalate (ts.filterMap Token.identifier?)))) ts
  | emptyCall {t f before after} : t.kind = .identifier f → before.kind = .sign .leftParen →
      after.kind = .sign .rightParen → Derives (.primary (.call .none f [])) [t, before, after]
  | call {t f before as ts after} : t.kind = .identifier f → before.kind = .sign .leftParen →
      Derives (.arguments as) ts → after.kind = .sign .rightParen →
      Derives (.primary (.call .none f as)) (t :: before :: (ts ++ [after]))
  | positional {e ts} : Derives (.sum e) ts → Derives (.argument ⟨none, e, .none⟩) ts
  | named {first more colon e ts} : (∀ t ∈ first :: more, isKeyToken t = true) →
      colon.kind = .sign .colon → Derives (.sum e) ts →
      Derives (.argument ⟨some (String.ofList (joinTokens first more)), e, .none⟩)
        (first :: (more ++ colon :: ts))
  | omitted {first more colon} : (∀ t ∈ first :: more, isKeyToken t = true) →
      colon.kind = .sign .colon →
      Derives (.argument ⟨some (String.ofList (joinTokens first more)), .undefined .none, .none⟩)
        (first :: (more ++ [colon]))
  | last {a ts} : Derives (.argument a) ts → Derives (.arguments [a]) ts
  | more {a as ts comma us} : Derives (.argument a) ts → comma.kind = .sign .comma →
      Derives (.arguments as) us → Derives (.arguments (a :: as)) (ts ++ comma :: us)

/-! ## Kinds of tokens -/

theorem Token.sign?_eq_some_iff {t : Token} {s : Sign} : t.sign? = some s ↔ t.kind = .sign s := by
  rw [Token.sign?]
  split
  · rename_i s' hKind
    rw [hKind, Option.some.injEq, TokenKind.sign.injEq]
  · rename_i hNone
    exact ⟨(fun h => nomatch h), fun h => absurd h (hNone s)⟩

theorem Token.identifier?_eq_some_iff {t : Token} {n : String} :
    t.identifier? = some n ↔ t.kind = .identifier n := by
  rw [Token.identifier?]
  split
  · rename_i n' hKind
    rw [hKind, Option.some.injEq, TokenKind.identifier.injEq]
  · rename_i hNone
    exact ⟨(fun h => nomatch h), fun h => absurd h (hNone n)⟩

theorem isKeyToken_of_identifier {t : Token} (h : t.identifier?.isSome = true) :
    isKeyToken t = true := by
  obtain ⟨n, hName⟩ := Option.isSome_iff_exists.1 h
  rw [isKeyToken, Token.identifier?_eq_some_iff.1 hName]

/-- The token is no piece that cannot be read, and no brace. -/
def Token.Proper (t : Token) : Prop :=
  t.invalid? = none ∧ t.kind ≠ .sign .leftBrace ∧ t.kind ≠ .sign .rightBrace

theorem Token.proper_of_sign {t : Token} {s : Sign} (h : t.kind = .sign s)
    (hLeft : s ≠ .leftBrace) (hRight : s ≠ .rightBrace) : t.Proper := by
  refine ⟨by rw [Token.invalid?, h], ?_, ?_⟩ <;> rw [h] <;> simpa

theorem Token.proper_of_key {t : Token} (h : isKeyToken t = true) : t.Proper := by
  rw [isKeyToken] at h
  split at h
  · rename_i n hKind
    refine ⟨by rw [Token.invalid?, hKind], ?_, ?_⟩ <;> rw [hKind] <;> simp
  · rename_i n hKind
    refine ⟨by rw [Token.invalid?, hKind], ?_, ?_⟩ <;> rw [hKind] <;> simp
  · cases h

theorem Token.proper_of_identifier {t : Token} {n : String} (h : t.kind = .identifier n) :
    t.Proper :=
  Token.proper_of_key (by rw [isKeyToken, h])

theorem additive?_ne_brace {s : Sign} {op : Operator} (h : additive? s = some op) :
    s ≠ .leftBrace ∧ s ≠ .rightBrace := by
  cases s <;> simp_all [additive?]

theorem multiplicative?_ne_brace {s : Sign} {op : Operator} (h : multiplicative? s = some op) :
    s ≠ .leftBrace ∧ s ≠ .rightBrace := by
  cases s <;> simp_all [multiplicative?]

/-! ## Tokens of phrases -/

theorem Derives.proper {p : Phrase} {ts : List Token} (h : Derives p ts) :
    ∀ t ∈ ts, t.Proper := by
  induction h with
  | sum _ ih | product _ ih | operand _ ih | positional _ ih | last _ ih => exact ih
  | additive _ hSign hOp _ ihL ihR =>
    have hNe := additive?_ne_brace hOp
    simp only [List.forall_mem_append, List.forall_mem_cons]
    exact ⟨ihL, Token.proper_of_sign hSign hNe.1 hNe.2, ihR⟩
  | multiplicative _ hSign hOp _ ihL ihR =>
    have hNe := multiplicative?_ne_brace hOp
    simp only [List.forall_mem_append, List.forall_mem_cons]
    exact ⟨ihL, Token.proper_of_sign hSign hNe.1 hNe.2, ihR⟩
  | field _ hDot hName ih =>
    simp only [List.forall_mem_append, List.forall_mem_cons]
    exact ⟨ih, Token.proper_of_sign hDot (by decide) (by decide),
      Token.proper_of_identifier hName, by simp⟩
  | string hKind | number hKind | reference hKind =>
    simp only [List.forall_mem_cons]
    refine ⟨⟨by rw [Token.invalid?, hKind], ?_, ?_⟩, by simp⟩ <;> rw [hKind] <;> simp
  | parenthesized hBefore _ hAfter ih =>
    simp only [List.forall_mem_append, List.forall_mem_cons]
    exact ⟨Token.proper_of_sign hBefore (by decide) (by decide), ih,
      Token.proper_of_sign hAfter (by decide) (by decide), by simp⟩
  | name _ hAll => exact fun t ht => Token.proper_of_key (isKeyToken_of_identifier (hAll t ht))
  | emptyCall hName hBefore hAfter =>
    simp only [List.forall_mem_cons]
    exact ⟨Token.proper_of_identifier hName,
      Token.proper_of_sign hBefore (by decide) (by decide),
      Token.proper_of_sign hAfter (by decide) (by decide), by simp⟩
  | call hName hBefore _ hAfter ih =>
    simp only [List.forall_mem_append, List.forall_mem_cons]
    exact ⟨Token.proper_of_identifier hName,
      Token.proper_of_sign hBefore (by decide) (by decide), ih,
      Token.proper_of_sign hAfter (by decide) (by decide), by simp⟩
  | named hKeys hColon _ ih =>
    simp only [List.forall_mem_append, List.forall_mem_cons] at hKeys ⊢
    exact ⟨Token.proper_of_key hKeys.1, fun t ht => Token.proper_of_key (hKeys.2 t ht),
      Token.proper_of_sign hColon (by decide) (by decide), ih⟩
  | omitted hKeys hColon =>
    simp only [List.forall_mem_append, List.forall_mem_cons] at hKeys ⊢
    exact ⟨Token.proper_of_key hKeys.1, fun t ht => Token.proper_of_key (hKeys.2 t ht),
      Token.proper_of_sign hColon (by decide) (by decide), by simp⟩
  | more _ hComma _ ihFirst ihMore =>
    simp only [List.forall_mem_append, List.forall_mem_cons]
    exact ⟨ihFirst, Token.proper_of_sign hComma (by decide) (by decide), ihMore⟩

/-- The first token of a phrase is neither a comma nor a closing parenthesis. -/
theorem Derives.starts {p : Phrase} {ts : List Token} (h : Derives p ts) :
    ∃ t us, ts = t :: us ∧ t.kind ≠ .sign .comma ∧ t.kind ≠ .sign .rightParen := by
  induction h with
  | sum _ ih | product _ ih | operand _ ih | positional _ ih | last _ ih => exact ih
  | additive _ _ _ _ ih _ | multiplicative _ _ _ _ ih _ | field _ _ _ ih | more _ _ _ ih _ =>
    obtain ⟨t, us, rfl, hKind⟩ := ih
    exact ⟨t, _, rfl, hKind⟩
  | string hKind | number hKind | reference hKind | parenthesized hKind _ _
  | emptyCall hKind _ _ | call hKind _ _ _ =>
    refine ⟨_, _, rfl, ?_⟩
    rw [hKind]
    simp
  | @name ts hSome hAll =>
    cases ts with
    | nil => exact absurd rfl hSome
    | cons t us =>
      have hIdentifier := hAll t List.mem_cons_self
      refine ⟨t, us, rfl, ?_, ?_⟩ <;> intro hKind <;>
        simp [Token.identifier?, hKind] at hIdentifier
  | @named first _ _ _ _ hKeys _ _ | @omitted first _ _ hKeys _ =>
    have hKey := hKeys first List.mem_cons_self
    refine ⟨first, _, rfl, ?_, ?_⟩ <;> intro hKind <;> simp [isKeyToken, hKind] at hKey

/-! ## Formulas are not taken for names of arguments -/

/-- Whether the phrase is a whole formula or a part of one. -/
def Phrase.isFormula : Phrase → Bool
  | .argument _ => false
  | .arguments _ => false
  | _ => true

/-- The tokens neither go on with the name of an argument nor close one. -/
def EndsName (rest : List Token) : Prop :=
  ∀ t ∈ rest.head?, isKeyToken t = false ∧ t.kind ≠ .sign .colon

theorem endsName_of_sign {t : Token} {s : Sign} (rest : List Token) (h : t.kind = .sign s)
    (hColon : s ≠ .colon) : EndsName (t :: rest) := by
  intro t' ht
  cases ht
  refine ⟨by rw [isKeyToken, h], ?_⟩
  rw [h]
  simpa

/-- Keys before anything but a colon name no argument. -/
theorem argumentKey?_eq_none {ts rest : List Token} (hKeys : ∀ t ∈ ts, isKeyToken t = true)
    (hEnds : EndsName rest) : argumentKey? (ts ++ rest) = none := by
  have hDrop : ∀ us : List Token, (∀ t ∈ us, isKeyToken t = true) →
      (us ++ rest).dropWhile isKeyToken = rest := by
    intro us hUs
    rw [List.dropWhile_append_of_pos hUs]
    cases rest with
    | nil => rfl
    | cons t rest => exact List.dropWhile_cons_of_neg (by simp [(hEnds t rfl).1])
  cases ts with
  | nil =>
    cases rest with
    | nil => rfl
    | cons t rest => rw [List.nil_append, argumentKey?, if_neg (by simp [(hEnds t rfl).1])]
  | cons first us =>
    rw [List.cons_append, argumentKey?, hDrop us fun t ht => hKeys t (List.mem_cons_of_mem _ ht)]
    cases rest with
    | nil => simp
    | cons t rest =>
      have hColon : t.sign? ≠ some .colon := by
        rw [Ne, Token.sign?_eq_some_iff]
        exact (hEnds t rfl).2
      simp [hColon]

/-- No formula looks like the name of an argument. -/
theorem Derives.argumentKey?_eq_none {p : Phrase} {ts : List Token} (h : Derives p ts)
    (hFormula : p.isFormula = true) {rest : List Token} (hEnds : EndsName rest) :
    argumentKey? (ts ++ rest) = none := by
  induction h generalizing rest with
  | sum _ ih | product _ ih | operand _ ih => exact ih rfl hEnds
  | @additive _ _ _ us _ _ _ _ hSign hOp _ ihL _ =>
    rw [List.append_assoc]
    exact ihL rfl (endsName_of_sign _ hSign (by rintro rfl; cases hOp))
  | multiplicative _ hSign hOp _ ihL _ =>
    rw [List.append_assoc]
    exact ihL rfl (endsName_of_sign _ hSign (by rintro rfl; cases hOp))
  | field _ hDot _ ih =>
    rw [List.append_assoc]
    exact ih rfl (endsName_of_sign _ hDot (by decide))
  | string hKind | reference hKind | parenthesized hKind _ _ =>
    rw [List.cons_append, argumentKey?, if_neg (by simp [isKeyToken, hKind])]
  | number hKind =>
    exact Formula.argumentKey?_eq_none (by simp [isKeyToken, hKind]) hEnds
  | name _ hAll =>
    exact Formula.argumentKey?_eq_none (fun t ht => isKeyToken_of_identifier (hAll t ht)) hEnds
  | @emptyCall t _ _ _ hName hBefore _ | @call t _ _ _ _ _ hName hBefore _ _ =>
    exact @Formula.argumentKey?_eq_none [t] _ (by simp [isKeyToken, hName])
      (endsName_of_sign _ hBefore (by decide))
  | positional | named | omitted | last | more => cases hFormula

end FormulaOutline.Formula
