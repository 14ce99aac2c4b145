import FormulaOutline.Proofs.Formula.Names

/-!
# Written expressions are phrases

The canonical text of an expression has the tokens of a phrase that stands for it. Parentheses are
written exactly where the grammar wants a tighter phrase than the text is one of. Where an expression
stands in a source makes no difference to its text, nor to whether it is read again from it.

* `Expr.Printable`: the expressions that can be written and read again.
* `Expr.phrase`: the tightest phrase that the text of an expression is one of.
* `Expr.Printable.derives`: the text of a printable expression is that phrase.
* `withoutSpans_withoutSpans`: spans are forgotten once and for all.
* `write_withoutSpans`: the text of an expression does not depend on them.
* `printable_withoutSpans_iff`: nor does whether it is printable.
-/

namespace FormulaOutline.Formula

open Text

/-! ## Printable expressions -/

/-- The expressions that can be written and read again. -/
inductive Expr.Printable : Expr → Prop
  | string (s : Span) (v : String) : Printable (.string s v)
  | number {s x} : Number.IsUnsigned x → Printable (.number s x)
  | reference {s i} : isTranscludable i = true → Printable (.reference s i)
  | name {s n} : IsSpaced (isWord · = true) n.toList → Printable (.name s n)
  | field {s s' e n} : Printable e → isWord n.toList = true →
      Printable (.field s e (.string s' n))
  /-- Only an argument with a name can be without a value. -/
  | call {s f args} : isWord f.toList = true → (∀ a ∈ args, ∀ n ∈ a.name, IsArgumentName n) →
      (∀ a ∈ args, a.isMissing = true → a.name.isSome = true) →
      (∀ a ∈ args, a.isMissing = false → Printable a.value) → Printable (.call s f args)
  | binary {s op l r} : Printable l → Printable r → Printable (.binary s op l r)

/-! ## The phrase of an expression -/

/-- The tightest phrase that the text of an expression is one of. -/
def Expr.phrase (e : Expr) : Phrase :=
  match e.precedence? with
  | none => .operand e
  | some n => if n = 1 then .sum e else .product e

theorem precedence?_withoutSpans (e : Expr) : e.withoutSpans.precedence? = e.precedence? := by
  cases e <;> rfl

theorem operand_of_phrase {e : Expr} {ts : List Token} (h : Derives e.phrase ts)
    (hTight : e.precedence? = none) : Derives (.operand e) ts := by
  rwa [Expr.phrase, hTight] at h

theorem product_of_phrase {e : Expr} {ts : List Token} (h : Derives e.phrase ts)
    (hTight : e.precedence? ≠ some 1) : Derives (.product e) ts := by
  rw [Expr.phrase] at h
  split at h
  · exact .product h
  · rename_i n hOperator
    rwa [if_neg fun hLoose => hTight (by rw [hOperator, hLoose])] at h

theorem sum_of_phrase {e : Expr} {ts : List Token} (h : Derives e.phrase ts) :
    Derives (.sum e) ts := by
  rw [Expr.phrase] at h
  split at h
  · exact .sum (.product h)
  · split at h
    · exact h
    · exact .sum h

/-! ## Texts put together -/

theorem separates_sign {s : Sign} (rest : List Char) (hDot : s ≠ .dot) :
    Separates (s.char :: rest) :=
  ⟨sign_char_not_continues s, fun h => absurd h (by revert hDot; cases s <;> decide)⟩

theorem Derives.valid {p : Phrase} {ts : List Token} (h : Derives p ts) :
    ∀ t ∈ ts, t.invalid? = none :=
  fun t ht => (h.proper t ht).1

/-- Parentheses make a primary of a sum. -/
theorem derives_parenthesized (p : Position) {e : Expr} {s : List Char}
    (h : ∀ q, Derives (.sum e) (lexFrom q s).tokens) :
    Derives (.primary e) (lexFrom p ('(' :: s ++ [')'])).tokens := by
  change Derives _ (lexFrom p (Sign.leftParen.char :: (s ++ [Sign.rightParen.char]))).tokens
  rw [lexFrom_sign, lexFrom_append (h _).valid (separates_sign _ (by decide)), lexFrom_sign,
    lexFrom]
  exact .parenthesized rfl (h _) rfl

/-- An operand with parentheses where they are needed. -/
theorem derives_operand {phrase : Phrase} {e : Expr} {s : List Char} (needed : Bool)
    (hPrimary : ∀ ts, Derives (.primary e) ts → Derives phrase ts)
    (hSum : ∀ q, Derives (.sum e) (lexFrom q s).tokens)
    (hPlain : needed = false → ∀ q, Derives phrase (lexFrom q s).tokens) (p : Position) :
    Derives phrase (lexFrom p (Expr.parenthesized needed s)).tokens := by
  cases needed with
  | false => exact hPlain rfl p
  | true => exact hPrimary _ (derives_parenthesized p hSum)

def Operator.sign : Operator → Sign
  | .add => .plus
  | .sub => .minus
  | .mul => .star
  | .div => .slash

theorem Operator.symbol_eq (op : Operator) : op.symbol = op.sign.char := by
  cases op <;> rfl

/-- Two texts with an operator between them. -/
theorem lexFrom_operator (p : Position) (op : Operator) {s : List Char} (t : List Char)
    (hValid : ∀ u ∈ (lexFrom p s).tokens, u.invalid? = none) :
    ∃ sign q, sign.kind = .sign op.sign ∧
      (lexFrom p (s ++ ' ' :: op.symbol :: ' ' :: t)).tokens =
        (lexFrom p s).tokens ++ sign :: (lexFrom q t).tokens := by
  let start := (lexFrom p s).stop.next ' '
  let stop := start.along [op.sign.char]
  refine ⟨⟨.sign op.sign, [op.sign.char], .between start stop⟩, stop.next ' ', rfl, ?_⟩
  rw [lexFrom_append hValid (separates_space _), lexFrom_separator _ _ (by decide),
    Operator.symbol_eq, lexFrom_sign, lexFrom_separator _ _ (by decide)]

/-! ## Operators -/

theorem precedence_cases (op : Operator) : op.precedence = 1 ∨ op.precedence = 2 := by
  cases op <;> decide

theorem additive?_sign {op : Operator} (h : op.precedence = 1) : additive? op.sign = some op := by
  revert h
  cases op <;> decide

theorem multiplicative?_sign {op : Operator} (h : op.precedence = 2) :
    multiplicative? op.sign = some op := by
  revert h
  cases op <;> decide

theorem precedence?_cases (e : Expr) :
    e.precedence? = none ∨ e.precedence? = some 1 ∨ e.precedence? = some 2 := by
  cases e with
  | binary s op l r =>
    right
    rw [Expr.precedence?, Option.some.injEq, Option.some.injEq]
    exact precedence_cases op
  | _ => exact Or.inl rfl

/-- An operand on the left of a product without parentheses is no sum. -/
theorem product_of_looserThan {op : Operator} {e : Expr} {ts : List Token}
    (h : Derives e.withoutSpans.phrase ts) (hOp : op.precedence = 2)
    (hPlain : e.looserThan op = false) : Derives (.product e.withoutSpans) ts := by
  apply product_of_phrase h
  rw [precedence?_withoutSpans]
  intro hSum
  rw [Expr.looserThan, hSum, hOp] at hPlain
  cases hPlain

/-- An operand on the right of a sum without parentheses is no sum. -/
theorem product_of_notTighterThan {op : Operator} {e : Expr} {ts : List Token}
    (h : Derives e.withoutSpans.phrase ts) (hOp : op.precedence = 1)
    (hPlain : e.notTighterThan op = false) : Derives (.product e.withoutSpans) ts := by
  apply product_of_phrase h
  rw [precedence?_withoutSpans]
  intro hSum
  rw [Expr.notTighterThan, hSum, hOp] at hPlain
  cases hPlain

/-- An operand on the right of a product without parentheses has no operator of its own. -/
theorem operand_of_notTighterThan {op : Operator} {e : Expr} {ts : List Token}
    (h : Derives e.withoutSpans.phrase ts) (hOp : op.precedence = 2)
    (hPlain : e.notTighterThan op = false) : Derives (.operand e.withoutSpans) ts := by
  apply operand_of_phrase h
  rw [precedence?_withoutSpans]
  rw [Expr.notTighterThan, hOp] at hPlain
  rcases precedence?_cases e with hNone | hSome | hSome
  · exact hNone
  · rw [hSome] at hPlain
    cases hPlain
  · rw [hSome] at hPlain
    cases hPlain

/-- The text of a binary expression, from those of its operands. -/
theorem derives_binary {l r : Expr} (op : Operator) (s : Span) (p : Position)
    (hL : ∀ q, Derives l.withoutSpans.phrase (lexFrom q l.write).tokens)
    (hR : ∀ q, Derives r.withoutSpans.phrase (lexFrom q r.write).tokens) :
    Derives (Expr.binary s op l r).withoutSpans.phrase
      (lexFrom p (Expr.binary s op l r).write).tokens := by
  have hSumL := fun q => sum_of_phrase (hL q)
  have hSumR := fun q => sum_of_phrase (hR q)
  rw [Expr.write, Expr.withoutSpans]
  rcases precedence_cases op with hOp | hOp
  · have hLeft := derives_operand (l.looserThan op)
      (fun ts h => .sum (.product (.operand h))) hSumL fun _ => hSumL
    have hRight := derives_operand (r.notTighterThan op)
      (fun ts h => .product (.operand h)) hSumR
      fun hPlain q => product_of_notTighterThan (hR q) hOp hPlain
    obtain ⟨sign, q, hSign, hTokens⟩ := lexFrom_operator p op
      (Expr.parenthesized (r.notTighterThan op) r.write) (hLeft p).valid
    rw [hTokens, Expr.phrase, Expr.precedence?, hOp]
    exact .additive (hLeft p) hSign (additive?_sign hOp) (hRight q)
  · have hLeft := derives_operand (l.looserThan op)
      (fun ts h => .product (.operand h)) hSumL
      fun hPlain q => product_of_looserThan (hL q) hOp hPlain
    have hRight := derives_operand (r.notTighterThan op)
      (fun ts h => .operand h) hSumR
      fun hPlain q => operand_of_notTighterThan (hR q) hOp hPlain
    obtain ⟨sign, q, hSign, hTokens⟩ := lexFrom_operator p op
      (Expr.parenthesized (r.notTighterThan op) r.write) (hLeft p).valid
    rw [hTokens, Expr.phrase, Expr.precedence?, hOp]
    exact .multiplicative (hLeft p) hSign (multiplicative?_sign hOp) (hRight q)

/-! ## Calls -/

/-- The text of a named argument with a value. -/
theorem derives_named (p : Position) {n : String} {e : Expr} {s : List Char}
    (hName : IsArgumentName n) (h : ∀ q, Derives (.sum e) (lexFrom q s).tokens) :
    Derives (.argument ⟨some n, e, .none⟩) (lexFrom p (n.toList ++ ':' :: ' ' :: s)).tokens := by
  obtain ⟨first, more, hTokens, hKeys, hText⟩ := hName.exists_keys p
  have hValid : ∀ t ∈ (lexFrom p n.toList).tokens, t.invalid? = none := by
    rw [hTokens]
    exact fun t ht => (Token.proper_of_key (hKeys t ht)).1
  change Derives _ (lexFrom p (n.toList ++ Sign.colon.char :: ' ' :: s)).tokens
  rw [lexFrom_append hValid (separates_sign _ (by decide)), hTokens, lexFrom_sign,
    lexFrom_separator _ _ (by decide), ← hText]
  exact .named hKeys rfl (h _)

/-- The text of an argument without a value. -/
theorem derives_omitted (p : Position) {n : String} (hName : IsArgumentName n) :
    Derives (.argument ⟨some n, .undefined .none, .none⟩)
      (lexFrom p (n.toList ++ [':'])).tokens := by
  obtain ⟨first, more, hTokens, hKeys, hText⟩ := hName.exists_keys p
  have hValid : ∀ t ∈ (lexFrom p n.toList).tokens, t.invalid? = none := by
    rw [hTokens]
    exact fun t ht => (Token.proper_of_key (hKeys t ht)).1
  change Derives _ (lexFrom p (n.toList ++ [Sign.colon.char])).tokens
  rw [lexFrom_append hValid (separates_sign _ (by decide)), hTokens, lexFrom_sign, lexFrom, ← hText]
  exact .omitted hKeys rfl

theorem writeArgument_of_value {n : String} {e : Expr} (s : Span) (h : e.isUndefined = false) :
    Expr.writeArgument ⟨some n, e, s⟩ = n.toList ++ ':' :: ' ' :: e.write := by
  cases e with
  | undefined => cases h
  | _ => rfl

/-- The text of an argument, from that of its value. -/
theorem derives_argument (p : Position) {a : Argument Expr}
    (hName : ∀ n ∈ a.name, IsArgumentName n)
    (hMissing : a.isMissing = true → a.name.isSome = true)
    (hValue : a.isMissing = false →
      ∀ q, Derives (.sum a.value.withoutSpans) (lexFrom q a.value.write).tokens) :
    Derives (.argument ⟨a.name, a.value.withoutSpans, .none⟩)
      (lexFrom p (Expr.writeArgument a)).tokens := by
  obtain ⟨_ | n, value, s⟩ := a
  · have hGiven : value.isUndefined = false := by
      rw [← Bool.not_eq_true]
      intro hUndefined
      cases hMissing hUndefined
    exact .positional (hValue hGiven p)
  · cases hUndefined : value.isUndefined with
    | false =>
      rw [writeArgument_of_value s hUndefined]
      exact derives_named p (hName n rfl) (hValue hUndefined)
    | true =>
      cases value with
      | undefined => exact derives_omitted p (hName n rfl)
      | _ => cases hUndefined

/-- The text of arguments, from those of the single ones. -/
theorem derives_arguments (p : Position) {as : List (Argument Expr)} (hSome : as ≠ [])
    (h : ∀ a ∈ as, ∀ q, Derives (.argument ⟨a.name, a.value.withoutSpans, .none⟩)
      (lexFrom q (Expr.writeArgument a)).tokens) :
    Derives (.arguments (Expr.argumentsWithoutSpans as))
      (lexFrom p (Expr.writeArguments as)).tokens := by
  induction as generalizing p with
  | nil => exact absurd rfl hSome
  | cons a as ih =>
    rw [List.forall_mem_cons] at h
    cases as with
    | nil => exact .last (h.1 p)
    | cons b as =>
      change Derives _ (lexFrom p (Expr.writeArgument a ++ Sign.comma.char :: ' ' ::
        Expr.writeArguments (b :: as))).tokens
      rw [lexFrom_append (h.1 p).valid (separates_sign _ (by decide)), lexFrom_sign,
        lexFrom_separator _ _ (by decide)]
      exact .more (h.1 p) rfl (ih _ (by simp) h.2)

/-- The text of a call, from those of its arguments. -/
theorem derives_call (p : Position) (s : Span) {f : String} {as : List (Argument Expr)}
    (hName : isWord f.toList = true)
    (h : ∀ a ∈ as, ∀ q, Derives (.argument ⟨a.name, a.value.withoutSpans, .none⟩)
      (lexFrom q (Expr.writeArgument a)).tokens) :
    Derives (.primary (Expr.call s f as).withoutSpans)
      (lexFrom p (Expr.call s f as).write).tokens := by
  have hToken := lexFrom_of_isToken p (isToken_word hName)
  have hValid := valid_of_isWord p hName
  rw [Expr.withoutSpans, Expr.write]
  change Derives _ (lexFrom p (f.toList ++ Sign.leftParen.char :: Expr.writeArguments as ++
    [Sign.rightParen.char])).tokens
  rw [List.append_assoc, List.cons_append, lexFrom_append hValid (separates_sign _ (by decide)),
    hToken, lexFrom_sign]
  by_cases hSome : as = []
  · subst hSome
    change Derives _ ([_] ++ _ :: (lexFrom _ (Sign.rightParen.char :: [])).tokens)
    rw [lexFrom_sign, lexFrom]
    exact .emptyCall (by rw [String.ofList_toList]) rfl rfl
  · have hArguments := fun q => derives_arguments q hSome h
    rw [lexFrom_append (hArguments _).valid (separates_sign _ (by decide)), lexFrom_sign, lexFrom]
    exact .call (by rw [String.ofList_toList]) rfl (hArguments _) rfl

/-! ## Fields -/

/-- The text of a field, from that of its object. -/
theorem derives_field (p : Position) (s s' : Span) {e : Expr} {n : String}
    (hName : isWord n.toList = true)
    (h : ∀ q, Derives e.withoutSpans.phrase (lexFrom q e.write).tokens) :
    Derives (.operand (Expr.field s e (.string s' n)).withoutSpans)
      (lexFrom p (Expr.field s e (.string s' n)).write).tokens := by
  have hSum := fun q => sum_of_phrase (h q)
  have hObject := derives_operand e.precedence?.isSome (fun ts h => .operand h) hSum
    fun hPlain q => operand_of_phrase (h q) (by
      rw [precedence?_withoutSpans]
      simpa using hPlain)
  have hSeparates : Separates (Sign.dot.char :: n.toList) := by
    refine ⟨by decide, fun _ d hd => ?_⟩
    cases hText : n.toList with
    | nil =>
      rw [hText] at hName
      cases hName
    | cons c rest =>
      rw [hText] at hName hd
      cases hd
      rw [isWord, Bool.and_eq_true] at hName
      rw [← Bool.not_eq_true]
      intro hDigit
      rw [startsIdentifier_of_isDigit hDigit] at hName
      cases hName.1
  rw [Expr.withoutSpans, Expr.withoutSpans, Expr.write]
  change Derives _ (lexFrom p (Expr.parenthesized e.precedence?.isSome e.write ++
    Sign.dot.char :: n.toList)).tokens
  rw [lexFrom_append (hObject p).valid hSeparates, lexFrom_sign,
    lexFrom_of_isToken _ (isToken_word hName)]
  exact .field (hObject p) rfl (by rw [String.ofList_toList])

/-! ## All expressions -/

/-- The text of a printable expression is its phrase. -/
theorem Expr.Printable.derives {e : Expr} (h : e.Printable) (p : Position) :
    Derives e.withoutSpans.phrase (lexFrom p e.write).tokens := by
  induction h generalizing p with
  | string s v =>
    rw [Expr.write, lexFrom_of_isToken p (isToken_string v)]
    exact .operand (.string rfl)
  | number hUnsigned =>
    rw [Expr.write, lexFrom_of_isToken p (isToken_number (Number.spells_integral hUnsigned))]
    exact .operand (.number rfl)
  | reference hId =>
    rw [Expr.write, lexFrom_of_isToken p (isToken_reference hId)]
    exact .operand (.reference rfl)
  | name hSpaced => exact .operand (derives_name p hSpaced)
  | field _ hName ih => exact derives_field p _ _ hName ih
  | call hName hNames hMissing _ ih =>
    exact .operand (derives_call p _ hName fun a ha q =>
      derives_argument q (hNames a ha) (hMissing a ha) fun hGiven q =>
        sum_of_phrase (ih a ha hGiven q))
  | binary _ _ ihL ihR => exact derives_binary _ _ p ihL ihR

/-! ## Expressions without their spans -/

theorem argumentsWithoutSpans_eq (args : List (Argument Expr)) : Expr.argumentsWithoutSpans args =
    args.map fun a => ⟨a.name, a.value.withoutSpans, .none⟩ := by
  induction args with
  | nil => rfl
  | cons a args ih => rw [Expr.argumentsWithoutSpans, ih, List.map_cons]

theorem isUndefined_withoutSpans (e : Expr) : e.withoutSpans.isUndefined = e.isUndefined := by
  cases e <;> rfl

theorem isCall_withoutSpans (e : Expr) : e.withoutSpans.isCall = e.isCall := by
  cases e <;> rfl

mutual

theorem withoutSpans_withoutSpans : (e : Expr) → e.withoutSpans.withoutSpans = e.withoutSpans
  | .string .. | .number .. | .undefined _ | .reference .. | .name .. => rfl
  | .field _ o f => by
    simp only [Expr.withoutSpans, withoutSpans_withoutSpans o, withoutSpans_withoutSpans f]
  | .call _ f args => by
    simp only [Expr.withoutSpans, argumentsWithoutSpans_argumentsWithoutSpans args]
  | .binary _ _ l r => by
    simp only [Expr.withoutSpans, withoutSpans_withoutSpans l, withoutSpans_withoutSpans r]
  | .inline _ i => by simp only [Expr.withoutSpans, withoutSpans_withoutSpans i]

theorem argumentsWithoutSpans_argumentsWithoutSpans : (args : List (Argument Expr)) →
    Expr.argumentsWithoutSpans (Expr.argumentsWithoutSpans args) = Expr.argumentsWithoutSpans args
  | [] => rfl
  | ⟨n, v, s⟩ :: rest => by
    simp only [Expr.argumentsWithoutSpans, withoutSpans_withoutSpans v,
      argumentsWithoutSpans_argumentsWithoutSpans rest]

end

/-! ## Texts -/

/-- The text behind the point of a field; a name stands there without quotation marks. -/
def fieldText : Expr → List Char
  | .string _ n => n.toList
  | f => f.write

theorem write_field (s : Span) (o f : Expr) : (Expr.field s o f).write =
    Expr.parenthesized o.precedence?.isSome o.write ++ '.' :: fieldText f := by
  cases f <;> rw [Expr.write] <;> first | rfl | simp

theorem fieldText_withoutSpans {f : Expr} (h : f.withoutSpans.write = f.write) :
    fieldText f.withoutSpans = fieldText f := by
  cases f with
  | string => rfl
  | _ => exact h

theorem writeArgument_withoutSpans (n : Option String) {v : Expr} (s : Span)
    (h : v.withoutSpans.write = v.write) :
    Expr.writeArgument ⟨n, v.withoutSpans, .none⟩ = Expr.writeArgument ⟨n, v, s⟩ := by
  cases n with
  | none => rw [Expr.writeArgument, Expr.writeArgument, h]
  | some n =>
    cases hGone : v.isUndefined with
    | false =>
      rw [writeArgument_of_value _ hGone, writeArgument_of_value, h]
      rw [isUndefined_withoutSpans, hGone]
    | true =>
      cases v with
      | undefined => rfl
      | _ => cases hGone

mutual

/-- The text of an expression does not depend on spans. -/
theorem write_withoutSpans : (e : Expr) → e.withoutSpans.write = e.write
  | .string .. | .number .. | .undefined _ | .reference .. | .name .. => rfl
  | .field _ o f => by
    rw [Expr.withoutSpans, write_field, write_field, precedence?_withoutSpans,
      write_withoutSpans o, fieldText_withoutSpans (write_withoutSpans f)]
  | .call _ f args => by
    rw [Expr.withoutSpans, Expr.write, Expr.write, writeArguments_withoutSpans args]
  | .binary _ _ l r => by
    simp only [Expr.withoutSpans, Expr.write, Expr.looserThan, Expr.notTighterThan,
      precedence?_withoutSpans, write_withoutSpans l, write_withoutSpans r]
  | .inline _ i => by rw [Expr.withoutSpans, Expr.write, Expr.write, write_withoutSpans i]

theorem writeArguments_withoutSpans : (args : List (Argument Expr)) →
    Expr.writeArguments (Expr.argumentsWithoutSpans args) = Expr.writeArguments args
  | [] => rfl
  | [⟨n, v, s⟩] => writeArgument_withoutSpans n s (write_withoutSpans v)
  | ⟨n, v, s⟩ :: ⟨n', v', s'⟩ :: rest => by
    have hMore := writeArguments_withoutSpans (⟨n', v', s'⟩ :: rest)
    simp only [Expr.argumentsWithoutSpans, Expr.writeArguments,
      writeArgument_withoutSpans n s (write_withoutSpans v)] at hMore ⊢
    rw [hMore]

end

/-! ## Printable expressions -/

/-- A printable expression is printable without spans. -/
theorem Expr.Printable.withoutSpans {e : Expr} (h : e.Printable) : e.withoutSpans.Printable := by
  induction h with
  | string s v => exact .string _ _
  | number hUnsigned => exact .number hUnsigned
  | reference hId => exact .reference hId
  | name hSpaced => exact .name hSpaced
  | field _ hName ih => exact .field ih hName
  | binary _ _ ihL ihR => exact .binary ihL ihR
  | call hName hNames hMissing _ ih =>
    rw [Expr.withoutSpans, argumentsWithoutSpans_eq]
    refine .call hName ?_ ?_ ?_
    all_goals
      intro a ha
      obtain ⟨b, hb, rfl⟩ := List.mem_map.mp ha
    · exact hNames b hb
    · exact fun hGone => hMissing b hb ((isUndefined_withoutSpans b.value).symm.trans hGone)
    · exact fun hGiven => ih b hb ((isUndefined_withoutSpans b.value).symm.trans hGiven)

theorem Expr.Printable.of_withoutSpans {e plain : Expr} (h : plain.Printable)
    (hPlain : e.withoutSpans = plain) : e.Printable := by
  induction h generalizing e with
  | string s v =>
    cases e <;> simp only [Expr.withoutSpans, reduceCtorEq] at hPlain
    exact .string _ _
  | number hUnsigned =>
    cases e <;> simp only [Expr.withoutSpans, reduceCtorEq, Expr.number.injEq] at hPlain
    exact .number (hPlain.2 ▸ hUnsigned)
  | reference hId =>
    cases e <;> simp only [Expr.withoutSpans, reduceCtorEq, Expr.reference.injEq] at hPlain
    exact .reference (hPlain.2 ▸ hId)
  | name hSpaced =>
    cases e <;> simp only [Expr.withoutSpans, reduceCtorEq, Expr.name.injEq] at hPlain
    exact .name (hPlain.2 ▸ hSpaced)
  | field _ hName ih =>
    cases e <;> simp only [Expr.withoutSpans, reduceCtorEq, Expr.field.injEq] at hPlain
    rename_i o f
    obtain ⟨-, hObject, hField⟩ := hPlain
    cases f <;> simp only [Expr.withoutSpans, reduceCtorEq, Expr.string.injEq] at hField
    exact .field (ih hObject) (hField.2 ▸ hName)
  | binary _ _ ihL ihR =>
    cases e <;> simp only [Expr.withoutSpans, reduceCtorEq, Expr.binary.injEq] at hPlain
    exact .binary (ihL hPlain.2.2.1) (ihR hPlain.2.2.2)
  | call hName hNames hMissing _ ih =>
    cases e <;> simp only [Expr.withoutSpans, reduceCtorEq, Expr.call.injEq] at hPlain
    obtain ⟨-, rfl, rfl⟩ := hPlain
    rw [argumentsWithoutSpans_eq] at hNames hMissing ih
    rw [List.forall_mem_map] at hNames hMissing ih
    refine .call hName hNames ?_ ?_
    · exact fun a ha hGone => hMissing a ha ((isUndefined_withoutSpans a.value).trans hGone)
    · exact fun a ha hGiven => ih a ha ((isUndefined_withoutSpans a.value).trans hGiven) rfl

theorem printable_withoutSpans_iff (e : Expr) : e.withoutSpans.Printable ↔ e.Printable :=
  ⟨fun h => h.of_withoutSpans rfl, fun h => h.withoutSpans⟩

end FormulaOutline.Formula
