import FormulaOutline.Proofs.Number.Rounding

/-!
# The shortest digits of a float

The digits of a float are looked for on finer and finer decimal grids.

* `decimalOrder_le`: the first grid is not coarser than the fraction itself.
* `holds_ofFinite`: the rounding interval of a float holds the numbers that round to it.
* `onGrid_isSome_of_fine`: a grid of seventeen digits has a number in the interval.
* `shortest_rounds`: the shortest digits round to the float they were chosen for.
-/

namespace FormulaOutline.Number

/-- The number that a decimal stands for. -/
def Decimal.value (d : Decimal) : ℚ := d.significand * 10 ^ d.exponent

/-! ## Fractions over powers of ten -/

theorem scaleDecimal_div (num den : Nat) (e : Int) :
    ((scaleDecimal num den e).1 : ℚ) / (scaleDecimal num den e).2 = num / den / 10 ^ e := by
  cases e with
  | ofNat e =>
    simp only [scaleDecimal, Nat.pow_eq, Int.ofNat_eq_natCast, zpow_natCast]
    push_cast
    rw [div_div]
  | negSucc e =>
    simp only [scaleDecimal, Nat.pow_eq, zpow_negSucc]
    push_cast
    rw [div_inv_eq_mul, mul_div_right_comm]

theorem scaleDecimal_pos (num : Nat) {den : Nat} (hDen : 0 < den) (e : Int) :
    0 < (scaleDecimal num den e).2 := by
  cases e with
  | ofNat e => exact Nat.mul_pos hDen (Nat.pow_pos (by decide))
  | negSucc e => exact hDen

theorem pow_length_digitsOf_le {n : Nat} (hPositive : 0 < n) :
    10 ^ ((digitsOf n).length - 1) ≤ n := by
  rcases Nat.eq_zero_or_pos ((digitsOf n).length - 1) with hOne | hMore
  · rw [hOne]
    exact hPositive
  · by_contra hSmall
    have hShort := (Nat.length_toDigits_le_iff (by decide) hMore).2 (Nat.not_le.1 hSmall)
    rw [digitsOf] at hMore hShort
    omega

theorem lt_pow_length_digitsOf (n : Nat) : n < 10 ^ (digitsOf n).length :=
  (Nat.length_toDigits_le_iff (by decide) Nat.length_toDigits_pos).1 (Nat.le_refl _)

theorem decimalOrder_le {num den : Nat} (hNum : 0 < num) (hDen : 0 < den) :
    (10 : ℚ) ^ decimalOrder num den ≤ num / den := by
  have hDenQ : (0 : ℚ) < den := by exact_mod_cast hDen
  rw [decimalOrder, le_div_iff₀ hDenQ]
  split
  · rename_i hLarge
    have hLength : 0 < (digitsOf (num / den)).length := Nat.length_toDigits_pos
    have hWhole := pow_length_digitsOf_le (Nat.div_pos hLarge hDen)
    have hExponent : ((digitsOf (num / den)).length : Int) - 1 =
        ((digitsOf (num / den)).length - 1 : Nat) := by omega
    rw [hExponent, zpow_natCast]
    have hScaled := (Nat.mul_le_mul_right den hWhole).trans (Nat.div_mul_le_self num den)
    exact_mod_cast hScaled
  · generalize hLength : (digitsOf (den / num)).length = length
    have hPositive : 0 < length := by
      rw [← hLength]
      exact Nat.length_toDigits_pos
    dsimp only
    split
    · rename_i hFits
      have hExponent : -((length : Int) - 1) = -((length - 1 : Nat) : Int) := by omega
      rw [hExponent, zpow_neg, zpow_natCast, inv_mul_le_iff₀ (by positivity), mul_comm]
      exact_mod_cast hFits
    · have hWhole := lt_pow_length_digitsOf (den / num)
      rw [hLength] at hWhole
      have hScaled := (Nat.div_lt_iff_lt_mul hNum).1 hWhole
      rw [zpow_neg, zpow_natCast, inv_mul_le_iff₀ (by positivity)]
      exact_mod_cast hScaled.le

/-! ## The rounding interval -/

theorem ofFinite_unit_pos (mantissa : Nat) (exponent : Int) :
    0 < (Interval.ofFinite mantissa exponent).unit := by
  rw [Interval.ofFinite]
  exact scaleBinary_pos _ (by decide) _

theorem ofFinite_value (mantissa : Nat) (exponent : Int) :
    ((Interval.ofFinite mantissa exponent).value : ℚ) /
      (Interval.ofFinite mantissa exponent).unit = mantissa * 2 ^ exponent := by
  have hScale := scaleBinary_div 1 1 (2 - exponent)
  simp only [Interval.ofFinite]
  generalize scaleBinary 1 1 (2 - exponent) = scale at *
  rw [zpow_sub₀ (by norm_num)] at hScale
  push_cast at *
  rw [mul_div_assoc, hScale]
  field_simp

/-- The ends of the interval are written as multiples of a quarter of the distance of floats. -/
theorem ofFinite_scaled (num quarters : Nat) {den : Nat} (exponent : Int) (hDen : 0 < den) :
    (quarters * (scaleBinary 1 1 (2 - exponent)).1 * den ≤
        num * (scaleBinary 1 1 (2 - exponent)).2 ↔
      (quarters : ℚ) / 4 * 2 ^ exponent ≤ num / den) ∧
    (num * (scaleBinary 1 1 (2 - exponent)).2 ≤
        quarters * (scaleBinary 1 1 (2 - exponent)).1 * den ↔
      (num : ℚ) / den ≤ quarters / 4 * 2 ^ exponent) := by
  have hScale := scaleBinary_div 1 1 (2 - exponent)
  have hUnit := scaleBinary_pos 1 one_pos (2 - exponent)
  generalize scaleBinary 1 1 (2 - exponent) = scale at *
  have hDenQ : (0 : ℚ) < den := by exact_mod_cast hDen
  have hUnitQ : (0 : ℚ) < scale.2 := by exact_mod_cast hUnit
  have hQuarter : (quarters : ℚ) / 4 * 2 ^ exponent = quarters * scale.1 / scale.2 := by
    rw [mul_div_assoc, hScale, zpow_sub₀ (by norm_num)]
    field_simp
    norm_num
  rw [hQuarter, div_le_div_iff₀ hUnitQ hDenQ, div_le_div_iff₀ hDenQ hUnitQ]
  exact ⟨by exact_mod_cast Iff.rfl, by exact_mod_cast Iff.rfl⟩

/-- The lower end of the interval in quarters. -/
def lowQuarters (mantissa : Nat) (exponent : Int) : Nat :=
  if mantissa = 2 ^ 52 ∧ leastExponent < exponent then 4 * mantissa - 1 else 4 * mantissa - 2

theorem rounds_iff {q : ℚ} {mantissa : Nat} {exponent : Int} (hMantissa : mantissa ≠ 0) :
    Rounds q mantissa exponent ↔
      ((lowQuarters mantissa exponent : ℚ) / 4 * 2 ^ exponent ≤ q ∧
        q ≤ ((4 * mantissa + 2 : Nat) : ℚ) / 4 * 2 ^ exponent) ∧
      (mantissa % 2 = 1 → (lowQuarters mantissa exponent : ℚ) / 4 * 2 ^ exponent < q ∧
        q < ((4 * mantissa + 2 : Nat) : ℚ) / 4 * 2 ^ exponent) := by
  have hPow : (0 : ℚ) < 2 ^ exponent := by positivity
  have hHigh : ((4 * mantissa + 2 : Nat) : ℚ) / 4 = mantissa + 1 / 2 := by
    push_cast
    ring
  rw [hHigh, lowQuarters]
  split
  · rename_i hPower
    have hLow : ((4 * mantissa - 1 : Nat) : ℚ) / 4 = mantissa - 1 / 4 := by
      rw [Nat.cast_sub (by omega)]
      push_cast
      ring
    have hEven : mantissa % 2 ≠ 1 := by
      rw [hPower.1]
      decide
    rw [hLow]
    constructor
    · intro h
      exact ⟨⟨h.power hPower.1 hPower.2, h.below⟩, fun hOdd => absurd hOdd hEven⟩
    · rintro ⟨⟨hAbove, hBelow⟩, -⟩
      refine ⟨?_, hBelow, fun hOdd => absurd hOdd hEven, fun _ _ => hAbove⟩
      calc ((mantissa : ℚ) - 1 / 2) * 2 ^ exponent ≤ (mantissa - 1 / 4) * 2 ^ exponent := by
            gcongr
            norm_num
        _ ≤ q := hAbove
  · rename_i hPower
    have hLow : ((4 * mantissa - 2 : Nat) : ℚ) / 4 = mantissa - 1 / 2 := by
      rw [Nat.cast_sub (by omega)]
      push_cast
      ring
    rw [hLow]
    constructor
    · intro h
      exact ⟨⟨h.above, h.below⟩, h.tie⟩
    · rintro ⟨⟨hAbove, hBelow⟩, hTie⟩
      exact ⟨hAbove, hBelow, hTie, fun hEq hLeast => absurd ⟨hEq, hLeast⟩ hPower⟩

/-- The rounding interval of a float holds the numbers that round to it. -/
theorem holds_ofFinite {num den mantissa : Nat} {exponent : Int} (hMantissa : mantissa ≠ 0)
    (hDen : 0 < den) :
    (Interval.ofFinite mantissa exponent).holds num den = true ↔
      Rounds ((num : ℚ) / den) mantissa exponent := by
  obtain ⟨hLow, hLow'⟩ := ofFinite_scaled num (lowQuarters mantissa exponent) exponent hDen
  obtain ⟨hHigh', hHigh⟩ := ofFinite_scaled num (4 * mantissa + 2) exponent hDen
  rw [rounds_iff hMantissa, ← hLow, ← hHigh, ← not_le, ← not_le, ← hLow', ← hHigh', not_le, not_le]
  rw [Interval.holds, Interval.ofFinite, lowQuarters]
  simp only [Nat.pow_eq]
  rcases Nat.mod_two_eq_zero_or_one mantissa with hEven | hOdd
  · simp [hEven]
  · rw [hOdd]
    simp only [decide_eq_true_eq, Nat.one_ne_zero, decide_false, Bool.false_eq_true, if_false,
      forall_const]
    exact ⟨fun h => ⟨⟨h.1.le, h.2.le⟩, h⟩, fun h => h.2⟩

/-! ## Grids -/

/-- What a grid gives lies in the interval. -/
theorem holds_of_onGrid {i : Interval} {tie : Tie} {exponent : Int} {d : Decimal}
    (h : i.onGrid tie exponent = some d) :
    d.exponent = exponent ∧
      i.holds (d.significand * (scaleDecimal 1 1 (-exponent)).1)
        (scaleDecimal 1 1 (-exponent)).2 = true := by
  rw [Interval.onGrid] at h
  dsimp only at h
  generalize (scaleDecimal i.value i.unit exponent).1 / (scaleDecimal i.value i.unit exponent).2 =
    below at h
  generalize hLower : i.holds (below * (scaleDecimal 1 1 (-exponent)).1)
    (scaleDecimal 1 1 (-exponent)).2 = lower at h
  generalize hUpper : i.holds ((below + 1) * (scaleDecimal 1 1 (-exponent)).1)
    (scaleDecimal 1 1 (-exponent)).2 = upper at h
  cases lower <;> cases upper
  · cases h
  · cases h
    exact ⟨rfl, hUpper⟩
  · cases h
    exact ⟨rfl, hLower⟩
  · simp only [Bool.or_self, if_true, Option.some.injEq] at h
    subst h
    refine ⟨rfl, ?_⟩
    dsimp only
    split
    · exact hUpper
    · exact hLower

theorem onGrid_isSome {i : Interval} {exponent : Int} {below : Nat} (tie : Tie)
    (hBelow : (scaleDecimal i.value i.unit exponent).1 /
      (scaleDecimal i.value i.unit exponent).2 = below)
    (h : i.holds (below * (scaleDecimal 1 1 (-exponent)).1)
        (scaleDecimal 1 1 (-exponent)).2 = true ∨
      i.holds ((below + 1) * (scaleDecimal 1 1 (-exponent)).1)
        (scaleDecimal 1 1 (-exponent)).2 = true) :
    (i.onGrid tie exponent).isSome = true := by
  rw [Interval.onGrid]
  dsimp only
  rw [hBelow]
  rcases h with h | h <;> simp [h]

theorem scaled_grid (k : Nat) (exponent : Int) :
    ((k * (scaleDecimal 1 1 (-exponent)).1 : Nat) : ℚ) / (scaleDecimal 1 1 (-exponent)).2 =
      k * 10 ^ exponent := by
  have hScale := scaleDecimal_div 1 1 (-exponent)
  push_cast at *
  rw [mul_div_assoc, hScale, zpow_neg]
  field_simp

/-- What a grid gives rounds to the float. -/
theorem rounds_of_onGrid {tie : Tie} {mantissa : Nat} {exponent grid : Int} {d : Decimal}
    (hMantissa : mantissa ≠ 0)
    (h : (Interval.ofFinite mantissa exponent).onGrid tie grid = some d) :
    Rounds d.value mantissa exponent := by
  obtain ⟨rfl, hHolds⟩ := holds_of_onGrid h
  have hRounds := (holds_ofFinite hMantissa (scaleDecimal_pos _ (by decide) _)).1 hHolds
  rwa [scaled_grid] at hRounds

/-- A number nearer to a float than a quarter of its distance to the next one rounds to it, and so
does one above it that is nearer than half of that distance. -/
theorem rounds_of_near {q : ℚ} {mantissa : Nat} {exponent : Int}
    (hAbove : (mantissa - 1 / 2) * 2 ^ exponent < q)
    (hPower : mantissa = 2 ^ 52 → (mantissa - 1 / 4) * 2 ^ exponent ≤ q)
    (hBelow : q < (mantissa + 1 / 2) * 2 ^ exponent) : Rounds q mantissa exponent :=
  ⟨hAbove.le, hBelow.le, fun _ => ⟨hAbove, hBelow⟩, fun h _ => hPower h⟩

/-- A grid of seventeen digits has a number that rounds to the float. -/
theorem onGrid_isSome_of_fine {mantissa : Nat} {exponent order : Int} (tie : Tie)
    (hCanonical : Canonical mantissa exponent) (hMantissa : mantissa ≠ 0)
    (hOrder : (10 : ℚ) ^ order ≤ mantissa * 2 ^ exponent) :
    ((Interval.ofFinite mantissa exponent).onGrid tie (order - 16)).isSome = true := by
  have hPow : (0 : ℚ) < 2 ^ exponent := by positivity
  have hGrid : (0 : ℚ) < 10 ^ (order - 16) := by positivity
  have hFine : (10 : ℚ) ^ (order - 16) * 10 ^ 16 ≤ mantissa * 2 ^ exponent := by
    rw [← zpow_natCast, ← zpow_add₀ (by norm_num)]
    simpa using hOrder
  have hSmall : (mantissa : ℚ) + 1 ≤ 2 ^ 53 := by exact_mod_cast hCanonical.small
  have hValue := ofFinite_value mantissa exponent
  have hScaled := scaleDecimal_div (Interval.ofFinite mantissa exponent).value
    (Interval.ofFinite mantissa exponent).unit (order - 16)
  have hPositive := scaleDecimal_pos (Interval.ofFinite mantissa exponent).value
    (ofFinite_unit_pos mantissa exponent) (order - 16)
  rw [hValue] at hScaled
  refine onGrid_isSome tie rfl ?_
  rw [holds_ofFinite hMantissa (scaleDecimal_pos _ (by decide) _),
    holds_ofFinite hMantissa (scaleDecimal_pos _ (by decide) _), scaled_grid, scaled_grid]
  generalize scaleDecimal (Interval.ofFinite mantissa exponent).value
    (Interval.ofFinite mantissa exponent).unit (order - 16) = scaled at *
  generalize (10 : ℚ) ^ (order - 16) = grid at *
  have hUnit : (0 : ℚ) < scaled.2 := by exact_mod_cast hPositive
  have hLower : ((scaled.1 / scaled.2 : Nat) : ℚ) * grid ≤ mantissa * 2 ^ exponent := by
    rw [← le_div_iff₀ hGrid, ← hScaled, le_div_iff₀ hUnit]
    exact_mod_cast Nat.div_mul_le_self scaled.1 scaled.2
  have hUpper : (mantissa : ℚ) * 2 ^ exponent < ((scaled.1 / scaled.2 + 1 : Nat) : ℚ) * grid := by
    rw [← div_lt_iff₀ hGrid, ← hScaled, div_lt_iff₀ hUnit]
    exact_mod_cast (Nat.div_lt_iff_lt_mul hPositive).1 (Nat.lt_succ_self (scaled.1 / scaled.2))
  generalize scaled.1 / scaled.2 = below at *
  push_cast at *
  have hDistance : (mantissa : ℚ) * 2 ^ exponent ≤ (2 ^ 53 - 1) * 2 ^ exponent := by
    gcongr
    linarith
  rcases le_total (2 * (mantissa * 2 ^ exponent - below * grid)) grid with hNear | hFar
  · left
    refine rounds_of_near (by linarith) (fun hPower => ?_) (by linarith)
    rw [hPower] at hFine hNear ⊢
    push_cast at *
    linarith
  · right
    exact rounds_of_near (by linarith) (fun _ => by linarith) (by linarith)

/-! ## The shortest digits -/

theorem trim_value (fuel : Nat) (d : Decimal) : (d.trim fuel).value = d.value := by
  induction fuel generalizing d with
  | zero => rfl
  | succ fuel ih =>
    rw [Decimal.trim]
    split
    · rename_i hZero
      rw [ih, Decimal.value, Decimal.value, zpow_add_one₀ (by norm_num)]
      have hSplit : (d.significand : ℚ) = (d.significand / 10 : Nat) * 10 := by
        exact_mod_cast (Nat.div_mul_cancel (Nat.dvd_of_mod_eq_zero hZero.2)).symm
      rw [hSplit]
      dsimp only
      ring
    · rfl

/-- The shortest digits of a float round to it. -/
theorem shortest_rounds {mantissa : Nat} {exponent : Int} (tie : Tie)
    (hCanonical : Canonical mantissa exponent) (hMantissa : mantissa ≠ 0) :
    Rounds (shortest tie mantissa exponent).value mantissa exponent := by
  have hUnit := ofFinite_unit_pos mantissa exponent
  have hValue := ofFinite_value mantissa exponent
  have hPositive : 0 < (Interval.ofFinite mantissa exponent).value := by
    have hMantissaQ : (0 : ℚ) < mantissa := by exact_mod_cast Nat.pos_of_ne_zero hMantissa
    have hUnitQ : (0 : ℚ) < (Interval.ofFinite mantissa exponent).unit := by exact_mod_cast hUnit
    have : (0 : ℚ) < mantissa * 2 ^ exponent := by positivity
    rw [← hValue, lt_div_iff₀ hUnitQ, zero_mul] at this
    exact_mod_cast this
  have hOrder := decimalOrder_le hPositive hUnit
  rw [hValue] at hOrder
  rw [shortest, if_neg hMantissa]
  dsimp only
  split
  · rename_i d hFound
    obtain ⟨more, -, hGrid⟩ := List.exists_of_findSome?_eq_some hFound
    rw [trim_value]
    exact rounds_of_onGrid hMantissa hGrid
  · rename_i hNone
    have hMissed := List.findSome?_eq_none_iff.1 hNone 16 (by decide)
    have hHit := onGrid_isSome_of_fine tie hCanonical hMantissa hOrder
    rw [Nat.cast_ofNat] at hMissed
    rw [hMissed] at hHit
    cases hHit

end FormulaOutline.Number
