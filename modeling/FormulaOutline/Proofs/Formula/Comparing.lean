import FormulaOutline.Proofs.Formula.Rereading
import FormulaOutline.Proofs.Number.Text

/-!
# Comparing expressions

Expressions are compared with their numbers as floats. Two floats can be equal and not the same, as the
two zeros are, and a float need not be equal to itself. This does not happen to expressions that are
read from a text, whose numbers have no signs. Their numbers can be infinite, though, and then they are
printed as a word.

* `Number.IsMagnitude`: the floats that are made of magnitude bits alone, as those that digits spell
  are, by `Number.Spells.isMagnitude`.
* `Number.IsMagnitude.beq_iff`: such floats are equal only if they are the same.
* `Expr.Unsigned`: no number literal of an expression has a sign.
* `unsigned_of_parseExpression`: so it is of everything that is read.
* `Expr.Unsigned.beq_iff`: such expressions are equal only if they are the same.
* `printed_literal_iff`: the number literals that are read again from what they are printed as.
-/

namespace FormulaOutline.Number

open Float.Model Float.Model.UnpackedFloat

/-- Zero without a sign, a number above zero, or infinity. -/
def IsMagnitude (x : Float) : Prop := ∃ bits, x = ofMagnitude false bits

variable {x y : Float}

theorem Spells.isMagnitude {text : List Char} (h : Spells text x) : IsMagnitude x := by
  obtain ⟨whole, fraction, -, -, -, -, rfl⟩ := h
  exact exists_magnitude _ _ _

/-- The float of the greatest magnitude bits. -/
def infinity : Float := ofMagnitude false infinityBits

theorem IsMagnitude.cases (h : IsMagnitude x) : x = infinity ∨ IsUnsigned x := by
  obtain ⟨bits, rfl⟩ := h
  by_cases hBelow : bits < infinityBits
  · exact Or.inr (denote_ofMagnitude (isFinite_ofMagnitude_iff.2 hBelow))
  · exact Or.inl (ofMagnitude_of_le (Nat.le_of_not_lt hBelow))

/-- Digits of a number beyond the floats are read as infinity. -/
theorem Spells.eq_infinity {text : List Char} (h : Spells text x) (hBeyond : overflow ≤ numeralValue text) :
    x = infinity := by
  rcases h.isMagnitude.cases with hInfinite | ⟨mantissa, exponent, hDenote⟩
  · exact hInfinite
  · have hFinite : isFinite x = true := Number.isFinite_iff.2 ⟨false, mantissa, exponent, hDenote⟩
    exact absurd (h.isFinite_iff.1 hFinite) (not_lt.2 hBeyond)

/-- Zero or a finite number, with a positive sign. -/
def IsPositive : UnpackedFloat → Prop
  | .zero .positive => True
  | .finite .positive .. => True
  | _ => False

theorem IsUnsigned.isPositive (h : IsUnsigned x) : IsPositive x.toModel.unpack := by
  obtain ⟨mantissa, exponent, hDenote⟩ := h
  have hField := unpackExponent_of_denote hDenote
  have hPositive : Sign.ofBitVec (@unpackSign .binary64 x.toBits.toBitVec) = .positive := by
    have hSign := (fields_of_denote hDenote).2.1
    have hSmall : ¬ 2 ^ 63 ≤ x.toBits.toNat := by simpa using hSign.symm
    have hZero : @unpackSign .binary64 x.toBits.toBitVec = 0#1 := by
      apply BitVec.eq_of_toNat_eq
      rw [unpackSign, BitVec.toNat_cast, BitVec.extractLsb_toNat, Nat.shiftRight_eq_div_pow]
      change x.toBits.toNat / 2 ^ 63 % 2 ^ 1 = 0
      omega
    rw [hZero]
    rfl
  change IsPositive (UnpackedFloat.unpack .binary64 x.toBits.toBitVec)
  rw [UnpackedFloat.unpack]
  dsimp only
  rw [if_neg fun h => hField (by rw [h]; decide), hPositive]
  split
  · split <;> trivial
  · trivial

/-- A finite float is told by what it is unpacked to. -/
theorem IsUnsigned.eq_of_unpack (hx : IsUnsigned x) (hy : IsUnsigned y)
    (h : x.toModel.unpack = y.toModel.unpack) : x = y := by
  obtain ⟨_, _, hDenoteX⟩ := hx
  obtain ⟨_, _, hDenoteY⟩ := hy
  have hBits : x.toBits.toBitVec = y.toBits.toBitVec := by
    rw [← pack_unpack (unpackExponent_of_denote hDenoteX),
      ← pack_unpack (unpackExponent_of_denote hDenoteY)]
    exact congrArg (UnpackedFloat.pack .binary64) h
  rw [← ofBits_toBits hDenoteX, ← ofBits_toBits hDenoteY, UInt64.toBitVec_inj.mp hBits]

theorem eq_of_compare {u v : UnpackedFloat} (hu : IsPositive u) (hv : IsPositive v)
    (h : u.compare v = some .eq) : u = v := by
  match u, hu, v, hv with
  | .zero .positive, _, .zero .positive, _ => rfl
  | .zero .positive, _, .finite .positive .., _ => cases h
  | .finite .positive .., _, .zero .positive, _ => cases h
  | .finite .positive m e hm, _, .finite .positive n f hn, _ =>
    obtain ⟨hExponent, hMantissa⟩ := Ordering.then_eq_eq.mp (Option.some.inj h)
    obtain rfl := compare_eq_iff_eq.mp hExponent
    obtain rfl := compare_eq_iff_eq.mp hMantissa
    rfl

theorem compare_infinity {u : UnpackedFloat} (hu : IsPositive u) :
    u.compare (.infinity .positive) = some .lt ∧
      (UnpackedFloat.infinity .positive).compare u = some .gt := by
  match u, hu with
  | .zero .positive, _ => exact ⟨rfl, rfl⟩
  | .finite .positive .., _ => exact ⟨rfl, rfl⟩

/-- Floats that are made of magnitude bits are equal only if they are the same. -/
theorem IsMagnitude.beq_iff (hx : IsMagnitude x) (hy : IsMagnitude y) : (x == y) = true ↔ x = y := by
  have hInfinity : infinity.toModel.unpack = .infinity .positive := rfl
  have hCompare : (x == y) = true ↔ x.toModel.unpack.compare y.toModel.unpack = some .eq := by
    change (x.toModel.unpack.compare y.toModel.unpack == some .eq) = true ↔ _
    exact beq_iff_eq
  rw [hCompare]
  constructor
  · intro h
    rcases hx.cases with rfl | hx <;> rcases hy.cases with rfl | hy
    · rfl
    · rw [hInfinity, (compare_infinity hy.isPositive).2] at h
      cases h
    · rw [hInfinity, (compare_infinity hx.isPositive).1] at h
      cases h
    · exact hx.eq_of_unpack hy (eq_of_compare hx.isPositive hy.isPositive h)
  · rintro rfl
    refine compare_self fun hNone => ?_
    rcases hx.cases with rfl | hx
    · rw [hInfinity] at hNone
      cases hNone
    · have hPositive := hx.isPositive
      rw [hNone] at hPositive
      exact hPositive

end FormulaOutline.Number

namespace FormulaOutline.Formula

/-! ## Numbers without signs -/

namespace Expr

/-- The number literals of an expression are floats without signs. -/
def Unsigned (e : Expr) : Prop := ∀ x ∈ e.numbers, Number.IsMagnitude x

theorem unsigned_withoutSpans_iff {e : Expr} : e.withoutSpans.Unsigned ↔ e.Unsigned := by
  rw [Unsigned, Unsigned, numbers_withoutSpans]

/-- Expressions with the same data up to the spans have the same numbers. -/
theorem Unsigned.congr {e e' : Expr} (h : e.Unsigned) (hSame : e'.withoutSpans = e.withoutSpans) :
    e'.Unsigned := by
  rw [← unsigned_withoutSpans_iff, hSame, unsigned_withoutSpans_iff]
  exact h

theorem unsigned_call_iff {s : Span} {f : String} {args : List (Argument Expr)} :
    (call s f args).Unsigned ↔ ∀ arg ∈ args, arg.value.Unsigned := by
  simp only [Unsigned, numbers, mem_argumentNumbers]
  exact ⟨fun h arg hArg x hx => h x ⟨arg, hArg, hx⟩, fun h x ⟨arg, hArg, hx⟩ => h arg hArg x hx⟩

end Expr

/-- The numbers of a phrase are numbers of its tokens. -/
theorem Derives.forall_mem_numbers {P : Float → Prop} {p : Phrase} {ts : List Token}
    (h : Derives p ts) (hTokens : ∀ t ∈ ts, ∀ x, t.kind = .number x → P x) : ∀ x ∈ p.numbers, P x := by
  induction h with
  | sum _ ih | product _ ih | operand _ ih | positional _ ih => exact ih hTokens
  | additive _ _ _ _ ihL ihR | multiplicative _ _ _ _ ihL ihR =>
    simp only [List.forall_mem_append, List.forall_mem_cons] at hTokens
    rw [Phrase.numbers, Expr.numbers, List.forall_mem_append]
    exact ⟨ihL hTokens.1, ihR hTokens.2.2⟩
  | field _ _ _ ih =>
    rw [List.forall_mem_append] at hTokens
    rw [Phrase.numbers, Expr.numbers, Expr.numbers, List.append_nil]
    exact ih hTokens.1
  | number hKind =>
    rw [Phrase.numbers, Expr.numbers, List.forall_mem_singleton]
    exact hTokens _ List.mem_cons_self _ hKind
  | string | reference | name | emptyCall | omitted =>
    exact List.forall_mem_nil _
  | parenthesized _ _ _ ih =>
    simp only [List.forall_mem_append, List.forall_mem_cons] at hTokens
    exact ih hTokens.2.1
  | call _ _ _ _ ih =>
    simp only [List.forall_mem_append, List.forall_mem_cons] at hTokens
    exact ih hTokens.2.2.1
  | named _ _ _ ih =>
    simp only [List.forall_mem_append, List.forall_mem_cons] at hTokens
    exact ih hTokens.2.2.2
  | last _ ih =>
    rw [Phrase.numbers, Expr.argumentNumbers, Expr.argumentNumbers, List.append_nil]
    exact ih hTokens
  | more _ _ _ ihFirst ihMore =>
    simp only [List.forall_mem_append, List.forall_mem_cons] at hTokens
    rw [Phrase.numbers, Expr.argumentNumbers, List.forall_mem_append]
    exact ⟨ihFirst hTokens.1, ihMore hTokens.2.2⟩

/-- The numbers of what is read from a text have no signs. -/
theorem unsigned_of_parseExpression {p : Text.Position} {s : List Char} {e : Expr}
    (h : parseExpression (lexFrom p s) = .ok e) : e.Unsigned := by
  rw [← Expr.unsigned_withoutSpans_iff]
  refine (derives_of_parseExpression h).forall_mem_numbers fun t ht x hKind => ?_
  exact (((row_lexFrom p s).shaped t ht).number x hKind).isMagnitude

/-! ## Equality -/

mutual

theorem same_iff : (e : Expr) → {e' : Expr} → e.Unsigned → e'.Unsigned →
    (Expr.same e e' = true ↔ e = e')
  | .string .., e', _, _ | .undefined _, e', _, _ | .reference .., e', _, _ | .name .., e', _, _ => by
    cases e' <;> simp [Expr.same]
  | .number s x, e', h, h' => by
    cases e' with
    | number s' x' =>
      have hNumbers := Number.IsMagnitude.beq_iff (h x (List.mem_singleton_self x))
        (h' x' (List.mem_singleton_self x'))
      rw [Expr.same, Bool.and_eq_true, beq_iff_eq, hNumbers, Expr.number.injEq]
    | _ => simp [Expr.same]
  | .field s o f, e', h, h' => by
    cases e' with
    | field s' o' f' =>
      obtain ⟨hObject, hField⟩ := List.forall_mem_append.mp h
      obtain ⟨hObject', hField'⟩ := List.forall_mem_append.mp h'
      simp only [Expr.same, Bool.and_eq_true, beq_iff_eq, same_iff o hObject hObject',
        same_iff f hField hField', Expr.field.injEq, and_assoc]
    | _ => simp [Expr.same]
  | .call s f as, e', h, h' => by
    cases e' with
    | call s' f' as' =>
      simp only [Expr.same, Bool.and_eq_true, beq_iff_eq, sameArguments_iff as h h', Expr.call.injEq,
        and_assoc]
    | _ => simp [Expr.same]
  | .binary s op l r, e', h, h' => by
    cases e' with
    | binary s' op' l' r' =>
      obtain ⟨hLeft, hRight⟩ := List.forall_mem_append.mp h
      obtain ⟨hLeft', hRight'⟩ := List.forall_mem_append.mp h'
      simp only [Expr.same, Bool.and_eq_true, beq_iff_eq, same_iff l hLeft hLeft',
        same_iff r hRight hRight', Expr.binary.injEq, and_assoc]
    | _ => simp [Expr.same]
  | .inline s i, e', h, h' => by
    cases e' with
    | inline s' i' =>
      have hInner : i.same i' = true ↔ i = i' := same_iff i h h'
      rw [Expr.same, Bool.and_eq_true, beq_iff_eq, hInner, Expr.inline.injEq]
    | _ => simp [Expr.same]

theorem sameArguments_iff : (as : List (Argument Expr)) → {bs : List (Argument Expr)} →
    (∀ x ∈ Expr.argumentNumbers as, Number.IsMagnitude x) →
      (∀ x ∈ Expr.argumentNumbers bs, Number.IsMagnitude x) →
        (Expr.sameArguments as bs = true ↔ as = bs)
  | [], bs, _, _ => by cases bs <;> simp [Expr.sameArguments]
  | ⟨n, v, s⟩ :: as, bs, h, h' => by
    match bs with
    | [] => simp [Expr.sameArguments]
    | ⟨n', v', s'⟩ :: bs =>
      obtain ⟨hValue, hRest⟩ := List.forall_mem_append.mp h
      obtain ⟨hValue', hRest'⟩ := List.forall_mem_append.mp h'
      simp only [Expr.sameArguments, Bool.and_eq_true, beq_iff_eq, same_iff v hValue hValue',
        sameArguments_iff as hRest hRest', List.cons.injEq, Argument.mk.injEq, and_assoc]

end

/-- Expressions with numbers without signs are equal only if they are the same. -/
theorem Expr.Unsigned.beq_iff {e e' : Expr} (h : e.Unsigned) (h' : e'.Unsigned) :
    (e == e') = true ↔ e = e' :=
  same_iff e h h'

/-! ## Number literals that are printed -/

/-- The tokens of the text of a number. -/
def printedKinds (x : Float) : List TokenKind :=
  (lex (Number.integral x).toList).tokens.map Token.kind

theorem printedKinds_of_isUnsigned {x : Float} (h : Number.IsUnsigned x) :
    printedKinds x = [.number x] := by
  rw [printedKinds, lex, lexFrom_of_isToken _ (isToken_number (Number.spells_integral h))]
  rfl

/-- Infinity is printed as a word. -/
theorem printedKinds_infinity : printedKinds Number.infinity = [.identifier "inf"] := by
  have hText : (Number.integral Number.infinity).toList = "inf".toList := by decide
  rw [printedKinds, hText, lex, lexFrom_of_isToken _ (isToken_word (by decide))]
  rfl

/-- A number literal is printed as digits that are read as the same number if it stands for less than
the bound of the floats, and as a word otherwise. -/
theorem printed_literal_iff {p : Text.Position} {s : List Char} {t : Token} {x : Float}
    (ht : t ∈ (lexFrom p s).tokens) (hKind : t.kind = .number x) :
    ((∃ y, printedKinds x = [.number y] ∧ (y == x) = true) ↔
        Number.numeralValue t.text < Number.overflow) ∧
      (Number.numeralValue t.text < Number.overflow → printedKinds x = [.number x]) ∧
      (Number.overflow ≤ Number.numeralValue t.text → printedKinds x = [.identifier "inf"]) := by
  have hSpells := (shaped_lexFrom p s t ht).number x hKind
  have hBelow : Number.numeralValue t.text < Number.overflow → Number.IsUnsigned x :=
    fun h => hSpells.isUnsigned (hSpells.isFinite_iff.2 h)
  have hBeyond : Number.overflow ≤ Number.numeralValue t.text →
      printedKinds x = [.identifier "inf"] := by
    intro h
    rw [hSpells.eq_infinity h, printedKinds_infinity]
  refine ⟨⟨?_, fun h => ?_⟩, fun h => printedKinds_of_isUnsigned (hBelow h), hBeyond⟩
  · rintro ⟨y, hPrinted, -⟩
    by_contra hNot
    rw [hBeyond (not_lt.1 hNot)] at hPrinted
    cases hPrinted
  · obtain ⟨_, _, hDenote⟩ := hBelow h
    exact ⟨x, printedKinds_of_isUnsigned (hBelow h), Number.beq_self hDenote⟩

/-- Two and a half, with a zero too many. -/
theorem printed_literal_half : ∃ t ∈ (lex "2.50".toList).tokens,
    t.kind = .number 2.5 ∧ printedKinds 2.5 = [.number 2.5] := by
  have hNumeral : Number.Numeral "2.50".toList ['2'] ['5', '0'] :=
    ⟨rfl, List.cons_ne_nil _ _, List.forall_mem_singleton.2 rfl,
      List.forall_mem_cons.2 ⟨rfl, List.forall_mem_singleton.2 rfl⟩⟩
  have hSpells : Number.Spells "2.50".toList 2.5 := hNumeral.spells (by decide +kernel)
  have hTokens := lexFrom_of_isToken .start (isToken_number hSpells)
  obtain ⟨t, ht, hText, hKind⟩ : ∃ t ∈ (lexFrom .start "2.50".toList).tokens,
      t.text = "2.50".toList ∧ t.kind = .number 2.5 := by
    rw [hTokens]
    exact ⟨_, List.mem_singleton_self _, rfl, rfl⟩
  refine ⟨t, ht, hKind, (printed_literal_iff ht hKind).2.1 ?_⟩
  have hDigits : Number.ofDigits (['2'] ++ ['5', '0']) = 250 := rfl
  rw [hText, hNumeral.value, hDigits]
  calc ((250 : Nat) : ℚ) / 10 ^ 2 ≤ 2 ^ (2 : Int) := by norm_num
    _ ≤ 2 ^ (1023 : Int) := zpow_le_zpow_right₀ (by norm_num) (by norm_num)
    _ < Number.overflow := Number.two_zpow_lt_overflow

/-- A one and 401 zeros are a number beyond the floats. -/
theorem printed_literal_word : ∃ t ∈ (lex ('1' :: List.replicate 401 '0')).tokens, ∃ x,
    t.kind = .number x ∧ ¬ ∃ y, printedKinds x = [.number y] ∧ (y == x) = true := by
  have hNumeral : Number.Numeral ('1' :: List.replicate 401 '0') ('1' :: List.replicate 401 '0') [] := by
    refine ⟨?_, List.cons_ne_nil _ _, List.forall_mem_cons.2 ⟨rfl, fun c hc => ?_⟩,
      List.forall_mem_nil _⟩
    · rw [Number.decimalText, if_pos rfl, List.append_nil]
    · rw [List.eq_of_mem_replicate hc]
      rfl
  have hDigits : Number.ofDigits ('1' :: List.replicate 401 '0' ++ []) = 10 ^ 401 := by
    have hOne : Number.ofDigits ['1'] = 1 := rfl
    rw [List.append_nil, ← List.singleton_append, Number.ofDigits_zeros_after, hOne, Nat.one_mul]
  have hBeyond : Number.overflow ≤ Number.numeralValue ('1' :: List.replicate 401 '0') := by
    have hPower : ((10 ^ 401 : Nat) : ℚ) / 10 ^ ([] : List Char).length = 10 ^ (401 : Int) := by
      rw [List.length_nil, pow_zero, div_one, Nat.cast_pow, Nat.cast_ofNat]
      rfl
    rw [hNumeral.value, hDigits, hPower]
    calc Number.overflow ≤ 2 ^ (1024 : Int) := Number.overflow_lt_two_zpow.le
      _ ≤ 2 ^ (1077 : Int) := zpow_le_zpow_right₀ (by norm_num) (by norm_num)
      _ ≤ 10 ^ (401 : Int) := Number.two_zpow_lt_ten_zpow.le
  have hSpells := hNumeral.spells rfl
  have hTokens := lexFrom_of_isToken .start (isToken_number hSpells)
  rw [hSpells.eq_infinity hBeyond] at hTokens
  refine ⟨_, by rw [lex, hTokens]; exact List.mem_singleton_self _, _, rfl, ?_⟩
  rintro ⟨y, hPrinted, -⟩
  rw [printedKinds_infinity] at hPrinted
  cases hPrinted

end FormulaOutline.Formula
