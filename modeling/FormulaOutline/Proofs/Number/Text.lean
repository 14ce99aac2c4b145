import FormulaOutline.Number.Layout
import FormulaOutline.Number.Reading
import FormulaOutline.Proofs.Number.Shortest

/-!
# Numbers and their texts

A finite float is written by its sign and digits that read back as the same float.

* `ofDecimal_of_rounds`: a decimal number that rounds to a float is read as that float.
* `Numeral`: digits, perhaps with a point among them; `exists_numeral_plain` says that finite floats are
  written by such behind their sign, and read back from these.
* `Spells`: digits, perhaps with a point among them, that are read as a float without a sign.
* `spells_integral`: the text of a float that is not negative spells it.
* `Spells.isUnsigned`: digits are read as a float that is not negative.
* `isFinite_ofDecimal_iff`, `Spells.isFinite_iff`: decimal numbers and digits that are read as finite
  floats, by their value.
-/

namespace FormulaOutline.Number

/-! ## Reading decimals -/

/-- The powers of two that floats reach, against a power of ten that is not multiplied out. -/
theorem two_zpow_lt_ten_zpow : (2 : ℚ) ^ (1077 : Int) < 10 ^ (401 : Int) :=
  calc (2 : ℚ) ^ (1077 : Int) ≤ 2 ^ (3 * 401 : Int) := zpow_le_zpow_right₀ (by norm_num) (by decide)
    _ = 8 ^ (401 : Int) := by rw [zpow_mul]; norm_num
    _ < 10 ^ (401 : Int) := zpow_lt_zpow_left₀ (by norm_num) (by norm_num) (by norm_num)

/-- A float's decimals do not reach the exponents that are not multiplied out. -/
theorem exponent_le_of_rounds {digits mantissa : Nat} {place exponent : Int}
    (hCanonical : Canonical mantissa exponent) (hDigits : digits ≠ 0)
    (h : Rounds (digits * 10 ^ place) mantissa exponent) : place ≤ 400 := by
  by_contra hLarge
  have hSmall : (mantissa : ℚ) + 1 ≤ 2 ^ 53 := by exact_mod_cast hCanonical.small
  have hExponent : exponent ≤ 972 := by
    have hBounded := hCanonical.bounded
    simp only [magnitudeBits, infinityBits, leastExponent, Nat.pow_eq] at hBounded
    omega
  have hOne : (1 : ℚ) ≤ digits := by exact_mod_cast Nat.pos_of_ne_zero hDigits
  have hOverflow : (10 : ℚ) ^ (401 : Int) < 2 ^ (1025 : Int) :=
    calc (10 : ℚ) ^ (401 : Int) ≤ 10 ^ place := zpow_le_zpow_right₀ (by norm_num) (by omega)
      _ ≤ digits * 10 ^ place := le_mul_of_one_le_left (by positivity) hOne
      _ ≤ (mantissa + 1 / 2) * 2 ^ exponent := h.below
      _ < 2 ^ 53 * 2 ^ exponent := by gcongr; linarith
      _ = 2 ^ (53 + exponent) := by rw [zpow_add₀ (by norm_num)]; norm_cast
      _ ≤ 2 ^ (1025 : Int) := zpow_le_zpow_right₀ (by norm_num) (by omega)
  have hLimit : (2 : ℚ) ^ (1025 : Int) < 10 ^ (401 : Int) :=
    (zpow_le_zpow_right₀ (by norm_num) (by norm_num)).trans_lt two_zpow_lt_ten_zpow
  exact absurd hOverflow hLimit.le.not_gt

/-- A decimal number whose exponent is too low to be multiplied out is next to nothing. -/
theorem decimal_lt_of_low {digits : Nat} {place : Int} (hDigits : digits ≠ 0)
    (hLow : place < -(400 + digits.log2 : Nat)) :
    (digits : ℚ) * 10 ^ place < 2 * 10 ^ (-401 : Int) :=
  calc (digits : ℚ) * 10 ^ place < 2 ^ ((digits.log2 : Int) + 1) * 10 ^ place := by
        gcongr
        exact (lt_two_pow_log2 hDigits).2
    _ ≤ 2 ^ ((digits.log2 : Int) + 1) * 10 ^ (-401 - (digits.log2 : Int)) := by
        gcongr
        · norm_num
        · omega
    _ ≤ 2 * 10 ^ (-401 : Int) := by
        rw [zpow_add_one₀ (by norm_num), zpow_sub₀ (by norm_num), zpow_natCast, zpow_natCast]
        have hPow : (2 : ℚ) ^ digits.log2 / 10 ^ digits.log2 ≤ 1 := by
          rw [div_le_one (by positivity)]
          gcongr
          norm_num
        calc (2 : ℚ) ^ digits.log2 * 2 * (10 ^ (-401 : Int) / 10 ^ digits.log2)
            = 2 * 10 ^ (-401 : Int) * (2 ^ digits.log2 / 10 ^ digits.log2) := by ring
          _ ≤ 2 * 10 ^ (-401 : Int) := mul_le_of_le_one_right (by positivity) hPow

theorem le_exponent_of_rounds {digits mantissa : Nat} {place exponent : Int}
    (hCanonical : Canonical mantissa exponent) (hMantissa : mantissa ≠ 0)
    (h : Rounds (digits * 10 ^ place) mantissa exponent) :
    -(400 + digits.log2 : Nat) ≤ place := by
  by_contra hSmall
  have hDigits : digits ≠ 0 := by
    rintro rfl
    simpa using h.pos hMantissa
  have hOne : (1 : ℚ) ≤ mantissa := by exact_mod_cast Nat.pos_of_ne_zero hMantissa
  have hUnderflow : (2 : ℚ)⁻¹ * 2 ^ leastExponent < 2 * 10 ^ (-401 : Int) :=
    calc (2 : ℚ)⁻¹ * 2 ^ leastExponent ≤ 2⁻¹ * 2 ^ exponent := by
          gcongr
          · norm_num
          · exact hCanonical.least
      _ ≤ (mantissa - 1 / 2) * 2 ^ exponent := by
          gcongr
          linarith
      _ ≤ digits * 10 ^ place := h.above
      _ < 2 * 10 ^ (-401 : Int) := decimal_lt_of_low hDigits (by omega)
  have hLimit : (2 : ℚ) * 10 ^ (-401 : Int) < 2⁻¹ * 2 ^ leastExponent :=
    calc (2 : ℚ) * 10 ^ (-401 : Int) < 2 * 2 ^ (-1077 : Int) := by
          rw [zpow_neg, zpow_neg]
          gcongr
          exact two_zpow_lt_ten_zpow
      _ = 2 ^ (-1076 : Int) := by rw [← zpow_one_add₀ (by norm_num)]; rfl
      _ ≤ 2 ^ (-1 + leastExponent) := zpow_le_zpow_right₀ (by norm_num) (by decide)
      _ = 2⁻¹ * 2 ^ leastExponent := by rw [zpow_add₀ (by norm_num), zpow_neg_one]
  exact absurd hUnderflow hLimit.le.not_gt

/-- A decimal number that rounds to a float is read as that float behind its sign. -/
theorem ofDecimal_of_rounds {x : Float} {negative : Bool} {digits mantissa : Nat}
    {place exponent : Int} (hDenote : denote x = .finite negative mantissa exponent)
    (hMantissa : mantissa ≠ 0) (h : Rounds (digits * 10 ^ place) mantissa exponent) :
    ofDecimal negative digits place = x := by
  have hCanonical := canonical_of_denote hDenote
  have hDigits : digits ≠ 0 := by
    rintro rfl
    simpa using h.pos hMantissa
  have hHigh := exponent_le_of_rounds hCanonical hDigits h
  have hLow := le_exponent_of_rounds hCanonical hMantissa h
  rw [← ofMagnitude_eq hDenote]
  unfold ofDecimal
  rw [if_neg hDigits, if_neg (by omega), if_neg (by omega)]
  cases place with
  | ofNat k =>
    refine ofRatio_eq negative hCanonical hMantissa (by decide) ?_
    simpa using h
  | negSucc k =>
    refine ofRatio_eq negative hCanonical hMantissa (Nat.pow_pos (by decide)).ne' ?_
    rw [zpow_negSucc, ← div_eq_mul_inv] at h
    simpa using h

theorem ofDecimal_zero {x : Float} {negative : Bool} {exponent : Int}
    (hDenote : denote x = .finite negative 0 exponent) (place : Int) :
    ofDecimal negative 0 place = x := by
  have hLeast : exponent = leastExponent :=
    (canonical_of_denote hDenote).normal.resolve_left (by decide)
  unfold ofDecimal
  rw [if_pos rfl, ← ofMagnitude_eq hDenote, hLeast]
  rfl

/-! ## Digits -/

/-- Digits, and a point with more digits unless there are none. -/
def decimalText (whole fraction : List Char) : List Char :=
  whole ++ if fraction = [] then [] else '.' :: fraction

/-- The text is digits, perhaps with a point among them, that are read as the float. -/
def Spells (text : List Char) (x : Float) : Prop :=
  ∃ whole fraction, text = decimalText whole fraction ∧ whole ≠ [] ∧
    (∀ c ∈ whole, c.isDigit = true) ∧ (∀ c ∈ fraction, c.isDigit = true) ∧
    ofDecimal false (ofDigits (whole ++ fraction)) (-fraction.length) = x

theorem toNat_of_isDigit {c : Char} (h : c.isDigit = true) : 48 ≤ c.toNat ∧ c.toNat ≤ 57 := by
  simpa [Char.isDigit, UInt32.le_iff_toNat_le] using h

theorem isDigit_of_mem_digitsOf {n : Nat} {c : Char} (h : c ∈ digitsOf n) : c.isDigit = true :=
  Nat.isDigit_of_mem_toDigits (by decide) (by decide) h

theorem ofDigits_digitsOf (n : Nat) : ofDigits (digitsOf n) = n :=
  Nat.ofDigitChars_ten_toDigits

theorem ofDigits_zeros_after (digits : List Char) (count : Nat) :
    ofDigits (digits ++ List.replicate count '0') = ofDigits digits * 10 ^ count := by
  change Nat.ofDigitChars 10 _ 0 = Nat.ofDigitChars 10 digits 0 * 10 ^ count
  rw [Nat.ofDigitChars_append, Nat.ofDigitChars_replicate_zero, Nat.mul_comm]

theorem ofDigits_zeros_before (digits : List Char) (count : Nat) :
    ofDigits (List.replicate count '0' ++ digits) = ofDigits digits := by
  change Nat.ofDigitChars 10 _ 0 = Nat.ofDigitChars 10 digits 0
  rw [Nat.ofDigitChars_append, Nat.ofDigitChars_replicate_zero, Nat.mul_zero]

theorem spanDigits_eq (s : List Char) :
    spanDigits s = (s.takeWhile Char.isDigit, s.dropWhile Char.isDigit) :=
  List.span_eq_takeWhile_dropWhile _ _

theorem spanDigits_append {digits rest : List Char} (hDigits : ∀ c ∈ digits, c.isDigit = true)
    (hRest : ∀ c ∈ rest.head?, c.isDigit = false) : spanDigits (digits ++ rest) = (digits, rest) := by
  have hStop : rest.takeWhile Char.isDigit = [] ∧ rest.dropWhile Char.isDigit = rest := by
    cases rest with
    | nil => exact ⟨rfl, rfl⟩
    | cons c rest =>
      have hNone : ¬ c.isDigit = true := by simp [hRest c rfl]
      exact ⟨List.takeWhile_cons_of_neg hNone, List.dropWhile_cons_of_neg hNone⟩
  rw [spanDigits_eq, List.takeWhile_append_of_pos hDigits, List.dropWhile_append_of_pos hDigits,
    hStop.1, hStop.2, List.append_nil]

/-- The text is digits, and behind a point more digits unless there are none. -/
structure Numeral (text whole fraction : List Char) : Prop where
  text_eq : text = decimalText whole fraction
  ne_nil : whole ≠ []
  whole : ∀ c ∈ whole, c.isDigit = true
  fraction : ∀ c ∈ fraction, c.isDigit = true

theorem numeral_zero : Numeral ['0'] ['0'] [] :=
  ⟨rfl, by decide, List.forall_mem_singleton.2 rfl, List.forall_mem_nil _⟩

theorem Numeral.exists_cons {text whole fraction : List Char} (h : Numeral text whole fraction) :
    ∃ c rest, text = c :: rest ∧ c.isDigit = true := by
  obtain ⟨c, rest, hWhole⟩ := List.exists_cons_of_ne_nil h.ne_nil
  have hDigit := h.whole c (hWhole ▸ List.mem_cons_self)
  exact ⟨c, _, by rw [h.text_eq, decimalText, hWhole, List.cons_append], hDigit⟩

theorem Numeral.digit_or_point {text whole fraction : List Char} (h : Numeral text whole fraction) :
    ∀ c ∈ text, c.isDigit = true ∨ c = '.' := by
  intro c hc
  rw [h.text_eq, decimalText] at hc
  split at hc
  · exact .inl (h.whole c (by simpa using hc))
  · simp only [List.mem_append, List.mem_cons] at hc
    rcases hc with hc | hc | hc
    · exact .inl (h.whole c hc)
    · exact .inr hc
    · exact .inl (h.fraction c hc)

theorem Numeral.spells {text whole fraction : List Char} {x : Float}
    (h : Numeral text whole fraction)
    (hValue : ofDecimal false (ofDigits (whole ++ fraction)) (-fraction.length) = x) :
    Spells text x :=
  ⟨whole, fraction, h.text_eq, h.ne_nil, h.whole, h.fraction, hValue⟩

/-- Digits in positional notation are a numeral of the number that they stand for. -/
theorem exists_numeral_positional (n : Nat) (place : Int) :
    ∃ whole fraction, Numeral (positional (digitsOf n) place) whole fraction ∧
      (ofDigits (whole ++ fraction) : ℚ) * 10 ^ (-fraction.length : Int) = n * 10 ^ place := by
  cases place with
  | ofNat k =>
    refine ⟨digitsOf n ++ List.replicate k '0', [], ⟨?_, ?_, ?_, List.forall_mem_nil _⟩, ?_⟩
    · simp [decimalText, positional]
    · simp [digitsOf, Nat.toDigits_ne_nil]
    · intro c hc
      rcases List.mem_append.1 hc with hc | hc
      · exact isDigit_of_mem_digitsOf hc
      · rw [List.eq_of_mem_replicate hc]
        decide
    · rw [List.append_nil, ofDigits_zeros_after, ofDigits_digitsOf]
      simp
  | negSucc k =>
    generalize hPadded : List.replicate (k + 2 - (digitsOf n).length) '0' ++ digitsOf n = padded
    have hLength : k + 2 ≤ padded.length := by
      rw [← hPadded, List.length_append, List.length_replicate]
      omega
    have hDigits : ∀ c ∈ padded, c.isDigit = true := by
      intro c hc
      rw [← hPadded] at hc
      rcases List.mem_append.1 hc with hc | hc
      · rw [List.eq_of_mem_replicate hc]
        decide
      · exact isDigit_of_mem_digitsOf hc
    have hFraction : (padded.drop (padded.length - (k + 1))).length = k + 1 := by
      rw [List.length_drop]
      omega
    refine ⟨padded.take (padded.length - (k + 1)), padded.drop (padded.length - (k + 1)),
      ⟨?_, ?_, fun c hc => hDigits c (List.mem_of_mem_take hc),
        fun c hc => hDigits c (List.mem_of_mem_drop hc)⟩, ?_⟩
    · rw [decimalText, if_neg (List.ne_nil_of_length_pos (by omega))]
      simp only [positional, hPadded]
    · apply List.ne_nil_of_length_pos
      rw [List.length_take]
      omega
    · rw [List.take_append_drop, ← hPadded, ofDigits_zeros_before, ofDigits_digitsOf, hPadded,
        hFraction]
      rfl

/-! ## Texts of floats -/

/-- Zero without a sign, or a finite number above zero. -/
def IsUnsigned (x : Float) : Prop :=
  ∃ mantissa exponent, denote x = .finite false mantissa exponent

/-- The text of a finite float without an exponent is a numeral that is read as this float behind its
sign. -/
theorem exists_numeral_plain {x : Float} {negative : Bool} {mantissa : Nat} {exponent : Int}
    (hDenote : denote x = .finite negative mantissa exponent) :
    ∃ text whole fraction, (plain x).toList = signed negative text ∧ Numeral text whole fraction ∧
      ofDecimal negative (ofDigits (whole ++ fraction)) (-fraction.length) = x := by
  rw [plain, hDenote]
  rcases Nat.eq_zero_or_pos mantissa with rfl | hPositive
  · exact ⟨['0'], ['0'], [], String.toList_ofList, numeral_zero, ofDecimal_zero hDenote _⟩
  · have hMantissa := hPositive.ne'
    have hRounds := shortest_rounds .up (canonical_of_denote hDenote) hMantissa
    generalize hShortest : shortest .up mantissa exponent = d at hRounds
    split
    · rename_i hFinite
      cases hFinite
      cases hPositive
    · rename_i hFinite
      cases hFinite
      obtain ⟨whole, fraction, hNumeral, hValue⟩ :=
        exists_numeral_positional d.significand d.exponent
      rw [hShortest]
      refine ⟨_, whole, fraction, String.toList_ofList, hNumeral,
        ofDecimal_of_rounds hDenote hMantissa ?_⟩
      rw [hValue]
      exact hRounds
    · rename_i hFinite
      exact absurd rfl (hFinite negative mantissa exponent)

/-- The text of a float without an exponent. -/
theorem spells_plain {x : Float} {mantissa : Nat} {exponent : Int}
    (hDenote : denote x = .finite false mantissa exponent) : Spells (plain x).toList x := by
  obtain ⟨text, whole, fraction, hText, hNumeral, hValue⟩ := exists_numeral_plain hDenote
  rw [hText, signed, if_neg (by decide)]
  exact hNumeral.spells hValue

/-- The integer that a float denotes. -/
theorem whole_eq {x : Float} {negative : Bool} {mantissa n : Nat} {exponent : Int}
    (hDenote : denote x = .finite false mantissa exponent) (h : whole? x = some (negative, n)) :
    negative = false ∧ (n : ℚ) = mantissa * 2 ^ exponent := by
  rw [whole?, hDenote] at h
  cases exponent with
  | ofNat e =>
    cases h
    refine ⟨rfl, ?_⟩
    simp
  | negSucc e =>
    dsimp only at h
    split at h
    · rename_i hDivides
      cases h
      refine ⟨rfl, ?_⟩
      obtain ⟨k, hk⟩ := Nat.dvd_of_mod_eq_zero hDivides
      rw [Nat.pow_eq] at hk ⊢
      rw [hk, Nat.mul_div_cancel_left _ (Nat.two_pow_pos _), zpow_negSucc]
      push_cast
      field_simp
    · cases h

/-- The text of a float that is not negative spells the float. -/
theorem spells_integral {x : Float} (h : IsUnsigned x) : Spells (integral x).toList x := by
  obtain ⟨mantissa, exponent, hDenote⟩ := h
  rw [integral]
  split
  · rename_i negative n hWhole
    obtain ⟨rfl, hValue⟩ := whole_eq hDenote hWhole
    split
    · rw [Bool.false_and, String.toList_ofList]
      have hText : digitsOf n = positional (digitsOf n) 0 := by simp [positional]
      obtain ⟨whole, fraction, hNumeral, hSame⟩ := exists_numeral_positional n 0
      rw [signed, if_neg (by decide), hText]
      refine hNumeral.spells ?_
      rw [zpow_zero, mul_one, hValue] at hSame
      rcases Nat.eq_zero_or_pos mantissa with rfl | hPositive
      · have hZero : (ofDigits (whole ++ fraction) : ℚ) = 0 := by simpa [zpow_ne_zero] using hSame
        rw [Nat.cast_eq_zero.1 hZero]
        exact ofDecimal_zero hDenote _
      · refine ofDecimal_of_rounds hDenote hPositive.ne' ?_
        rw [hSame]
        exact rounds_self mantissa exponent
    · exact spells_plain hDenote
  · exact spells_plain hDenote

/-! ## Floats that are read -/

/-- A decimal number is read as a float that is made of magnitude bits. -/
theorem exists_magnitude (negative : Bool) (digits : Nat) (place : Int) :
    ∃ bits, ofDecimal negative digits place = ofMagnitude negative bits := by
  have hRatio : ∀ num den, ∃ bits, ofRatio negative num den = ofMagnitude negative bits := by
    intro num den
    rw [ofRatio]
    split
    · exact ⟨_, rfl⟩
    · exact ⟨_, rfl⟩
  unfold ofDecimal
  split
  · exact ⟨_, rfl⟩
  split
  · exact ⟨_, rfl⟩
  split
  · exact ⟨_, rfl⟩
  cases place with
  | ofNat => exact hRatio _ _
  | negSucc => exact hRatio _ _

/-- A finite float that digits spell is not negative. -/
theorem Spells.isUnsigned {text : List Char} {x : Float} (h : Spells text x)
    (hFinite : isFinite x = true) : IsUnsigned x := by
  obtain ⟨whole, fraction, -, -, -, -, rfl⟩ := h
  obtain ⟨bits, hBits⟩ := exists_magnitude false (ofDigits (whole ++ fraction)) (-fraction.length)
  rw [hBits] at hFinite ⊢
  exact denote_ofMagnitude hFinite

/-! ## Numbers beyond the floats -/

/-- A decimal number is a finite float if it is below the bound. -/
theorem isFinite_ofDecimal_iff {negative : Bool} {digits : Nat} {place : Int} :
    isFinite (ofDecimal negative digits place) = true ↔ (digits : ℚ) * 10 ^ place < overflow := by
  have hBound : (1 : ℚ) < overflow :=
    (one_lt_zpow₀ (by norm_num) (by norm_num)).trans two_zpow_lt_overflow
  unfold ofDecimal
  rcases Nat.eq_zero_or_pos digits with rfl | hPositive
  · rw [if_pos rfl, isFinite_ofMagnitude_iff, Nat.cast_zero, zero_mul]
    exact iff_of_true (by decide) (by linarith)
  rw [if_neg hPositive.ne']
  split
  · rename_i hHigh
    have hOne : (1 : ℚ) ≤ digits := by exact_mod_cast hPositive
    rw [isFinite_ofMagnitude_iff]
    refine iff_of_false (lt_irrefl _) (not_lt.2 ?_)
    calc overflow ≤ 2 ^ (1024 : Int) := overflow_lt_two_zpow.le
      _ ≤ 2 ^ (1077 : Int) := zpow_le_zpow_right₀ (by norm_num) (by norm_num)
      _ ≤ 10 ^ (401 : Int) := two_zpow_lt_ten_zpow.le
      _ ≤ 10 ^ place := zpow_le_zpow_right₀ (by norm_num) (by omega)
      _ ≤ digits * 10 ^ place := le_mul_of_one_le_left (by positivity) hOne
  split
  · rename_i hLow
    rw [isFinite_ofMagnitude_iff]
    refine iff_of_true (by decide) ((decimal_lt_of_low hPositive.ne' hLow).trans ?_)
    have hSmall : (10 : ℚ) ^ (-401 : Int) ≤ 10 ^ (-1 : Int) :=
      zpow_le_zpow_right₀ (by norm_num) (by norm_num)
    rw [zpow_neg_one] at hSmall
    linarith
  cases place with
  | ofNat k =>
    refine (isFinite_ofRatio_iff (by decide)).trans ?_
    simp
  | negSucc k =>
    refine (isFinite_ofRatio_iff (Nat.pow_pos (by decide)).ne').trans ?_
    rw [zpow_negSucc, ← div_eq_mul_inv]
    simp

/-- The number that digits, perhaps with a point among them, stand for. -/
def numeralValue (text : List Char) : ℚ :=
  ofDigits (text.filter Char.isDigit) / 10 ^ ((text.dropWhile Char.isDigit).length - 1)

theorem Numeral.value {text whole fraction : List Char} (h : Numeral text whole fraction) :
    numeralValue text = ofDigits (whole ++ fraction) / 10 ^ fraction.length := by
  have hPoint : ('.'.isDigit) = false := rfl
  have hFilter : text.filter Char.isDigit = whole ++ fraction := by
    rw [h.text_eq, decimalText, List.filter_append, List.filter_eq_self.2 h.whole]
    split
    · rename_i hNone
      rw [hNone, List.filter_nil]
    · rw [List.filter_cons_of_neg (by simp [hPoint]), List.filter_eq_self.2 h.fraction]
  have hLength : (text.dropWhile Char.isDigit).length - 1 = fraction.length := by
    rw [h.text_eq, decimalText, List.dropWhile_append_of_pos h.whole]
    split
    · rename_i hNone
      rw [hNone]
      rfl
    · rw [List.dropWhile_cons_of_neg (by simp [hPoint]), List.length_cons, Nat.add_sub_cancel]
  rw [numeralValue, hFilter, hLength]

/-- Digits are read as a finite float if what they stand for is below the bound. -/
theorem Spells.isFinite_iff {text : List Char} {x : Float} (h : Spells text x) :
    isFinite x = true ↔ numeralValue text < overflow := by
  obtain ⟨whole, fraction, hText, hSome, hWhole, hFraction, rfl⟩ := h
  rw [isFinite_ofDecimal_iff, Numeral.value ⟨hText, hSome, hWhole, hFraction⟩, zpow_neg,
    zpow_natCast, div_eq_mul_inv]

end FormulaOutline.Number
