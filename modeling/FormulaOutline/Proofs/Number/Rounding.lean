import FormulaOutline.Number.Binary
import FormulaOutline.Number.Decimal
import Mathlib

/-!
# Rounding to a float

A finite float is told by its mantissa and exponent, and by its bits. A fraction is rounded at the
exponent of the floats near to it. Fractions are compared as rational numbers here.

* `ofBits_toBits`: a finite float is made again from its bits.
* `toBits_of_denote`: the bits of a finite float are the mantissa, the exponent's place above it and the
  sign above both.
* `ofMagnitude_eq`: such bits make the float that denotes the mantissa and the exponent.
* `isFinite_ofMagnitude_iff`: such bits make a finite float if they are fewer than those of infinity.
* `denote_ofMagnitude`: a finite float that is made of such bits has the sign that it was given.
* `beq_self`: a finite float is equal to itself.
* `spacing_spec`: the exponent at which the floats near a fraction are spaced.
* `Rounds`: the rational numbers to which a float is the nearest one.
* `ofRatio_eq`: such a number is rounded to that float.
* `overflow`: the bound from which on fractions are rounded to infinity, by `isFinite_ofRatio_iff`.
-/

namespace FormulaOutline.Number

open Float.Model Float.Model.UnpackedFloat

/-! ## Fields of a word -/

theorem toBitVec_ofBitVec (b : BitVec 1) : (Sign.ofBitVec b).toBitVec = b := by
  rcases BitVec.eq_zero_or_eq_one b with rfl | rfl <;> rfl

/-- The sign, exponent and mantissa of a word make it up. -/
theorem packComponents_fields (b : BitVec Format.binary64.numBits) :
    packComponents .binary64 (Sign.ofBitVec (unpackSign b)) (unpackExponent b)
      (unpackMantissa b) = b := by
  rw [packComponents, toBitVec_ofBitVec]
  apply BitVec.eq_of_getLsbD_eq
  intro i hi
  change i < 64 at hi
  simp only [unpackSign, unpackExponent, unpackMantissa, BitVec.getLsbD_append,
    BitVec.getLsbD_cast, BitVec.getLsbD_extractLsb]
  rcases Nat.lt_trichotomy i 63 with h | rfl | h
  · rcases Nat.lt_or_ge i 52 with h' | h'
    · simp [h']
    · have hShift : 52 + (i - 52) = i := by omega
      have hField : i - 52 < 11 := by omega
      simp [Nat.not_lt.2 h', hShift, hField]
  · rfl
  · omega

/-! ## Packing what was unpacked -/

theorem pack_subnormal (s : Sign) {m : Nat} (hPositive : 0 < m) (hSmall : m < 2 ^ 52) :
    (UnpackedFloat.finite s m (-1074) hPositive).pack .binary64 =
      packComponents .binary64 s 0#11 (BitVec.ofNat 52 m) := by
  have hLog : m.log2 < 52 := (Nat.log2_lt (by omega)).2 hSmall
  rw [UnpackedFloat.pack]
  dsimp only
  rw [if_neg (by decide), if_neg]
  change ¬ m.log2 + 1 = 53
  omega

theorem pack_normal (s : Sign) {m : Nat} {e : Int} {hPositive : 0 < m} (hNormal : 2 ^ 52 ≤ m)
    (hSmall : m < 2 ^ 53) {field : Nat} (hField : e + 1075 = field) (hFinite : field < 2047) :
    (UnpackedFloat.finite s m e hPositive).pack .binary64 =
      packComponents .binary64 s (BitVec.ofNat 11 field) (BitVec.ofNat 52 m) := by
  have hLog : m.log2 = 52 := (Nat.log2_eq_iff (by omega)).2 ⟨hNormal, hSmall⟩
  have hExponent : (e + Format.binary64.exponentBias +
      Format.binary64.mantissaBitsWithoutImplicit).toNat = field := by
    change (e + 1023 + 52).toNat = field
    omega
  rw [UnpackedFloat.pack]
  dsimp only
  rw [hExponent, hLog, if_neg (by change ¬ 2048 ≤ field + 1; omega), if_pos (by decide)]

/-- A word that is neither an infinity nor a NaN is packed again from what it is unpacked to. -/
theorem pack_unpack {b : BitVec Format.binary64.numBits}
    (hFinite : (unpackExponent b).toNat ≠ 2047) :
    (UnpackedFloat.unpack .binary64 b).pack .binary64 = b := by
  have hFields := packComponents_fields b
  have hFraction : (unpackMantissa b).toNat < 2 ^ 52 := (unpackMantissa b).isLt
  have hField : (unpackExponent b).toNat < 2 ^ 11 := (unpackExponent b).isLt
  rw [UnpackedFloat.unpack]
  dsimp only
  rw [if_neg fun h => hFinite (by rw [h]; decide)]
  split
  · rename_i hZero
    rw [hZero] at hFields
    split
    · rename_i hNone
      rw [hNone] at hFields
      exact hFields
    · rename_i hSome
      have hExponent : ((unpackExponent b).toNat : Int) - (Format.binary64.exponentBias +
          Format.binary64.mantissaBitsWithoutImplicit) + 1 = -1074 := by
        rw [hZero]
        decide
      simp only [hExponent]
      rw [pack_subnormal _ _ hFraction, BitVec.ofNat_toNat]
      exact hFields
  · rename_i hNonzero
    have hMantissa : (1#1 ++ unpackMantissa b).toNat = (unpackMantissa b).toNat + 2 ^ 52 := by
      rw [BitVec.toNat_append, ← Nat.shiftLeft_add_eq_or_of_lt hFraction, Nat.add_comm]
      rfl
    have hExponent : ((unpackExponent b).toNat : Int) - (Format.binary64.exponentBias +
        Format.binary64.mantissaBitsWithoutImplicit) + 1075 = (unpackExponent b).toNat := by
      change ((unpackExponent b).toNat : Int) - (1023 + 52) + 1075 = (unpackExponent b).toNat
      omega
    have hPacked : BitVec.ofNat 52 (1#1 ++ unpackMantissa b).toNat = unpackMantissa b := by
      apply BitVec.eq_of_toNat_eq
      rw [hMantissa, BitVec.toNat_ofNat, Nat.add_mod_right, Nat.mod_eq_of_lt hFraction]
    rw [pack_normal _ (by omega) (by omega) hExponent (by omega), BitVec.ofNat_toNat, hPacked]
    exact hFields

/-! ## Finite floats -/

/-- The bits of `mantissa * 2 ^ exponent`, the sign left out. -/
def magnitudeBits (mantissa : Nat) (exponent : Int) : Nat :=
  (exponent - leastExponent).toNat * 2 ^ 52 + mantissa

/-- The mantissas and exponents of finite floats. -/
structure Canonical (mantissa : Nat) (exponent : Int) : Prop where
  small : mantissa < 2 ^ 53
  least : leastExponent ≤ exponent
  /-- Only the floats nearest to zero have a short mantissa. -/
  normal : 2 ^ 52 ≤ mantissa ∨ exponent = leastExponent
  bounded : magnitudeBits mantissa exponent < infinityBits

/-- The exponent and mantissa fields of a finite float. -/
theorem fields_of_denote {x : Float} {negative : Bool} {mantissa : Nat} {exponent : Int}
    (hDenote : denote x = .finite negative mantissa exponent) :
    x.toBits.toNat / 2 ^ 52 % 2048 ≠ 2047 ∧ negative = decide (2 ^ 63 ≤ x.toBits.toNat) ∧
      (x.toBits.toNat / 2 ^ 52 % 2048 = 0 ∧ mantissa = x.toBits.toNat % 2 ^ 52 ∧
          exponent = leastExponent ∨
        0 < x.toBits.toNat / 2 ^ 52 % 2048 ∧ mantissa = x.toBits.toNat % 2 ^ 52 + 2 ^ 52 ∧
          exponent = (x.toBits.toNat / 2 ^ 52 % 2048 : Nat) - 1075) := by
  unfold denote at hDenote
  dsimp only [Nat.pow_eq] at hDenote
  split at hDenote
  · split at hDenote <;> cases hDenote
  · rename_i hOnes
    split at hDenote
    · rename_i hZero
      cases hDenote
      exact ⟨hOnes, rfl, Or.inl ⟨hZero, rfl, rfl⟩⟩
    · rename_i hZero
      cases hDenote
      exact ⟨hOnes, rfl, Or.inr ⟨Nat.pos_of_ne_zero hZero, rfl, rfl⟩⟩

theorem canonical_of_denote {x : Float} {negative : Bool} {mantissa : Nat} {exponent : Int}
    (hDenote : denote x = .finite negative mantissa exponent) : Canonical mantissa exponent := by
  obtain ⟨hOnes, -, ⟨-, rfl, rfl⟩ | ⟨hField, rfl, rfl⟩⟩ := fields_of_denote hDenote
  · refine ⟨by omega, Int.le_refl _, Or.inr rfl, ?_⟩
    simp only [magnitudeBits, infinityBits, Nat.pow_eq]
    omega
  · refine ⟨by omega, by simp only [leastExponent]; omega, Or.inl (by omega), ?_⟩
    simp only [magnitudeBits, infinityBits, leastExponent, Nat.pow_eq]
    omega

/-- The bit above those of the magnitude. -/
def signBit (negative : Bool) : Nat := if negative then 2 ^ 63 else 0

/-- The bits of a finite float. -/
theorem toBits_of_denote {x : Float} {negative : Bool} {mantissa : Nat} {exponent : Int}
    (hDenote : denote x = .finite negative mantissa exponent) :
    x.toBits.toNat = magnitudeBits mantissa exponent + signBit negative := by
  have hBits := x.toBits.toNat_lt
  obtain ⟨-, rfl, hFields⟩ := fields_of_denote hDenote
  have hSign : signBit (decide (2 ^ 63 ≤ x.toBits.toNat)) = x.toBits.toNat / 2 ^ 63 * 2 ^ 63 := by
    by_cases hNegative : 2 ^ 63 ≤ x.toBits.toNat
    · rw [decide_eq_true hNegative, signBit, if_pos rfl]
      omega
    · rw [decide_eq_false hNegative, signBit, if_neg (by decide)]
      omega
  rw [hSign]
  obtain ⟨hField, rfl, rfl⟩ | ⟨hField, rfl, rfl⟩ := hFields
  · simp only [magnitudeBits]
    omega
  · simp only [magnitudeBits, leastExponent]
    omega

/-- The exponent field of a finite float is not all ones. -/
theorem unpackExponent_of_denote {x : Float} {negative : Bool} {mantissa : Nat} {exponent : Int}
    (hDenote : denote x = .finite negative mantissa exponent) :
    (@unpackExponent .binary64 x.toBits.toBitVec).toNat ≠ 2047 := by
  have hOnes := (fields_of_denote hDenote).1
  simpa [unpackExponent, Nat.shiftRight_eq_div_pow] using hOnes

/-- A finite float is made again from its bits. -/
theorem ofBits_toBits {x : Float} {negative : Bool} {mantissa : Nat} {exponent : Int}
    (hDenote : denote x = .finite negative mantissa exponent) : Float.ofBits x.toBits = x := by
  have hPacked := pack_unpack (unpackExponent_of_denote hDenote)
  obtain ⟨⟨bits, valid⟩⟩ := x
  rw [Float.ofBits, Float.Model.ofBits, Float.Model.pack]
  congr 2
  exact congrArg UInt64.ofBitVec hPacked

/-- Bits that are neither those of an infinity nor of a NaN are kept by a float. -/
theorem toBits_ofBits {b : UInt64} (h : b.toNat / 2 ^ 52 % 2048 ≠ 2047) :
    (Float.ofBits b).toBits = b := by
  have hField : (@unpackExponent .binary64 b.toBitVec).toNat ≠ 2047 := by
    simpa [unpackExponent, Nat.shiftRight_eq_div_pow] using h
  exact congrArg UInt64.ofBitVec (pack_unpack hField)

theorem ofMagnitude_of_lt {negative : Bool} {bits : Nat} (h : bits < infinityBits) :
    ofMagnitude negative bits = Float.ofBits (UInt64.ofNat (bits + signBit negative)) := by
  rw [ofMagnitude, Nat.min_eq_left (Nat.le_of_lt h), signBit, Nat.pow_eq]
  split <;> rfl

/-- Magnitude bits below those of infinity are kept by a float, the sign above them. -/
theorem toNat_toBits_ofMagnitude (negative : Bool) {bits : Nat} (hBelow : bits < infinityBits) :
    (ofMagnitude negative bits).toBits.toNat = bits + signBit negative := by
  have hSign : signBit negative = 2 ^ 63 ∨ signBit negative = 0 := by
    cases negative
    · exact Or.inr rfl
    · exact Or.inl rfl
  rw [ofMagnitude_of_lt hBelow]
  simp only [infinityBits, Nat.pow_eq] at hBelow
  have hValue : (UInt64.ofNat (bits + signBit negative)).toNat = bits + signBit negative :=
    UInt64.toNat_ofNat_of_lt' (by change _ < 2 ^ 64; omega)
  rw [toBits_ofBits (by rw [hValue]; omega), hValue]

/-- Magnitude bits that are too many are those of infinity. -/
theorem ofMagnitude_of_le {negative : Bool} {bits : Nat} (h : infinityBits ≤ bits) :
    ofMagnitude negative bits = ofMagnitude negative infinityBits := by
  rw [ofMagnitude, ofMagnitude, Nat.min_eq_right h, Nat.min_self]

theorem isFinite_iff {x : Float} : isFinite x = true ↔
    ∃ negative mantissa exponent, denote x = .finite negative mantissa exponent := by
  unfold isFinite
  split
  · rename_i hDenote
    exact ⟨fun _ => ⟨_, _, _, hDenote⟩, fun _ => rfl⟩
  · rename_i hNone
    refine ⟨nofun, ?_⟩
    rintro ⟨negative, mantissa, exponent, hDenote⟩
    exact absurd hDenote (hNone negative mantissa exponent)

/-- A float that is made of magnitude bits is finite if they are fewer than those of infinity. -/
theorem isFinite_ofMagnitude_iff {negative : Bool} {bits : Nat} :
    isFinite (ofMagnitude negative bits) = true ↔ bits < infinityBits := by
  constructor
  · intro h
    by_contra hAbove
    rw [ofMagnitude_of_le (Nat.le_of_not_lt hAbove)] at h
    revert h
    cases negative <;> decide
  · intro hBelow
    have hBits := toNat_toBits_ofMagnitude negative hBelow
    simp only [infinityBits, Nat.pow_eq] at hBelow
    have hOnes : ¬ (bits + signBit negative) / 2 ^ 52 % 2048 = 2047 := by
      rw [signBit]
      split <;> omega
    rw [isFinite, denote, hBits]
    simp only [Nat.pow_eq, if_neg hOnes]
    by_cases hZero : (bits + signBit negative) / 2 ^ 52 % 2048 = 0
    · rw [if_pos hZero]
    · rw [if_neg hZero]

/-- A finite float that is made of magnitude bits has the sign that it was given. -/
theorem denote_ofMagnitude {negative : Bool} {bits : Nat}
    (h : isFinite (ofMagnitude negative bits) = true) :
    ∃ mantissa exponent, denote (ofMagnitude negative bits) = .finite negative mantissa exponent := by
  have hBelow := isFinite_ofMagnitude_iff.1 h
  have hBits := toNat_toBits_ofMagnitude negative hBelow
  simp only [infinityBits, Nat.pow_eq] at hBelow
  obtain ⟨sign, mantissa, exponent, hDenote⟩ := isFinite_iff.1 h
  obtain ⟨-, hSign, -⟩ := fields_of_denote hDenote
  have hSame : decide (2 ^ 63 ≤ bits + signBit negative) = negative := by
    cases negative
    · exact decide_eq_false (by change ¬ 2 ^ 63 ≤ bits + 0; omega)
    · exact decide_eq_true (Nat.le_add_left _ _)
  rw [hBits, hSame] at hSign
  exact ⟨mantissa, exponent, hSign ▸ hDenote⟩

/-- The bits of a mantissa and an exponent make the float that denotes them. -/
theorem ofMagnitude_eq {x : Float} {negative : Bool} {mantissa : Nat} {exponent : Int}
    (hDenote : denote x = .finite negative mantissa exponent) :
    ofMagnitude negative (magnitudeBits mantissa exponent) = x := by
  rw [ofMagnitude_of_lt (canonical_of_denote hDenote).bounded, ← toBits_of_denote hDenote,
    UInt64.ofNat_toNat]
  exact ofBits_toBits hDenote

/-! ## Equality -/

theorem compare_self {u : UnpackedFloat} (h : u ≠ .notANumber) : u.compare u = some .eq := by
  cases u with
  | notANumber => exact absurd rfl h
  | infinity s => cases s <;> rfl
  | zero s => rfl
  | finite s m e hPositive => cases s <;> simp [UnpackedFloat.compare]

/-- A finite float is equal to itself. -/
theorem beq_self {x : Float} {negative : Bool} {mantissa : Nat} {exponent : Int}
    (hDenote : denote x = .finite negative mantissa exponent) : (x == x) = true := by
  have hField := unpackExponent_of_denote hDenote
  have hNumber : x.toModel.unpack ≠ .notANumber := by
    change UnpackedFloat.unpack .binary64 x.toBits.toBitVec ≠ .notANumber
    rw [UnpackedFloat.unpack]
    dsimp only
    rw [if_neg fun h => hField (by rw [h]; decide)]
    split
    · split <;> nofun
    · nofun
  change (x.toModel.unpack.compare x.toModel.unpack == some .eq) = true
  rw [compare_self hNumber]
  rfl

end FormulaOutline.Number

namespace FormulaOutline.Number

/-! ## Fractions over powers of two -/

theorem scaleBinary_div (num den : Nat) (e : Int) :
    ((scaleBinary num den e).1 : ℚ) / (scaleBinary num den e).2 = num / den / 2 ^ e := by
  cases e with
  | ofNat e =>
    simp only [scaleBinary, Nat.pow_eq, Int.ofNat_eq_natCast, zpow_natCast]
    push_cast
    rw [div_div]
  | negSucc e =>
    simp only [scaleBinary, Nat.pow_eq, zpow_negSucc]
    push_cast
    rw [div_inv_eq_mul, mul_div_right_comm]

theorem scaleBinary_pos (num : Nat) {den : Nat} (hDen : 0 < den) (e : Int) :
    0 < (scaleBinary num den e).2 := by
  cases e with
  | ofNat e => exact Nat.mul_pos hDen (Nat.pow_pos (by decide))
  | negSucc e => exact hDen

theorem nearestEven_eq {num den k : Nat} (hDen : 0 < den)
    (hAbove : (k : ℚ) - 1 / 2 ≤ num / den) (hBelow : (num : ℚ) / den ≤ k + 1 / 2)
    (hTie : k % 2 = 1 → (k : ℚ) - 1 / 2 < num / den ∧ (num : ℚ) / den < k + 1 / 2) :
    nearestEven num den = k := by
  have hDenQ : (0 : ℚ) < den := by exact_mod_cast hDen
  have hAboveNat : 2 * (k * den) ≤ 2 * num + den := by
    rw [le_div_iff₀ hDenQ] at hAbove
    have : (2 * (k * den) : ℚ) ≤ 2 * num + den := by linarith
    exact_mod_cast this
  have hBelowNat : 2 * num ≤ 2 * (k * den) + den := by
    rw [div_le_iff₀ hDenQ] at hBelow
    have : (2 * num : ℚ) ≤ 2 * (k * den) + den := by linarith
    exact_mod_cast this
  have hTieNat : k % 2 = 1 → 2 * (k * den) < 2 * num + den ∧ 2 * num < 2 * (k * den) + den := by
    intro hOdd
    obtain ⟨hA, hB⟩ := hTie hOdd
    rw [lt_div_iff₀ hDenQ] at hA
    rw [div_lt_iff₀ hDenQ] at hB
    have hA' : (2 * (k * den) : ℚ) < 2 * num + den := by linarith
    have hB' : (2 * num : ℚ) < 2 * (k * den) + den := by linarith
    exact ⟨by exact_mod_cast hA', by exact_mod_cast hB'⟩
  have hSplit : den * (num / den) + num % den = num := Nat.div_add_mod num den
  have hRest : num % den < den := Nat.mod_lt _ hDen
  rw [nearestEven]
  generalize num / den = q at *
  generalize num % den = r at *
  obtain rfl | rfl : k = q ∨ k = q + 1 := by
    have hUpper : k < q + 2 := by
      by_contra hLarge
      have := Nat.mul_le_mul_right den (Nat.not_lt.1 hLarge)
      rw [Nat.add_mul, Nat.mul_comm q] at this
      omega
    have hLower : q < k + 1 := by
      by_contra hSmall
      have := Nat.mul_le_mul_right den (Nat.not_lt.1 hSmall)
      rw [Nat.add_mul, Nat.mul_comm q] at this
      omega
    omega
  · rw [Nat.mul_comm k] at *
    split
    · rfl
    · rw [if_neg (by omega)]
      have := fun hOdd => (hTieNat hOdd).2
      omega
  · rw [Nat.add_mul, Nat.mul_comm q] at *
    rw [if_neg (by omega)]
    split
    · rfl
    · have := fun hOdd => (hTieNat hOdd).1
      omega

/-! ## The exponent of the floats near a fraction -/

theorem lt_two_pow_log2 {n : Nat} (hPositive : n ≠ 0) :
    (2 : ℚ) ^ (n.log2 : Int) ≤ n ∧ (n : ℚ) < 2 ^ ((n.log2 : Int) + 1) := by
  have hLow := Nat.log2_self_le hPositive
  have hHigh := Nat.lt_log2_self (n := n)
  constructor
  · rw [zpow_natCast]
    exact_mod_cast hLow
  · rw [← Nat.cast_succ, zpow_natCast]
    exact_mod_cast hHigh

/-- The binary logarithms of a fraction's numerator and denominator bound the fraction. -/
theorem div_log2_bounds {num den : Nat} (hNum : num ≠ 0) (hDen : den ≠ 0) :
    (2 : ℚ) ^ ((num.log2 : Int) - den.log2 - 1) < num / den ∧
      (num : ℚ) / den < 2 ^ ((num.log2 : Int) - den.log2 + 1) := by
  obtain ⟨hNumLow, hNumHigh⟩ := lt_two_pow_log2 hNum
  obtain ⟨hDenLow, hDenHigh⟩ := lt_two_pow_log2 hDen
  have hDenQ : (0 : ℚ) < den := by exact_mod_cast Nat.pos_of_ne_zero hDen
  have hTwo : (2 : ℚ) ≠ 0 := by norm_num
  constructor
  · rw [lt_div_iff₀ hDenQ]
    calc (2 : ℚ) ^ ((num.log2 : Int) - den.log2 - 1) * den
        < 2 ^ ((num.log2 : Int) - den.log2 - 1) * 2 ^ ((den.log2 : Int) + 1) := by gcongr
      _ = 2 ^ (num.log2 : Int) := by rw [← zpow_add₀ hTwo]; congr 1; ring
      _ ≤ num := hNumLow
  · rw [div_lt_iff₀ hDenQ]
    calc (num : ℚ) < 2 ^ ((num.log2 : Int) + 1) := hNumHigh
      _ = 2 ^ ((num.log2 : Int) - den.log2 + 1) * 2 ^ (den.log2 : Int) := by
        rw [← zpow_add₀ hTwo]; congr 1; ring
      _ ≤ 2 ^ ((num.log2 : Int) - den.log2 + 1) * den := by gcongr

/-- A fraction at the exponent of its floats has at most 53 bits, and no less unless no float has a
lower exponent. -/
theorem spacing_spec {num den : Nat} (hNum : num ≠ 0) (hDen : den ≠ 0) :
    leastExponent ≤ spacing num den ∧ (num : ℚ) / den < 2 ^ (53 + spacing num den) ∧
      (spacing num den = leastExponent ∨ (2 : ℚ) ^ (52 + spacing num den) ≤ num / den) := by
  obtain ⟨hLow, hHigh⟩ := div_log2_bounds hNum hDen
  have hTwo : (1 : ℚ) < 2 := by norm_num
  rw [spacing]
  dsimp only
  generalize hGuess : max ((num.log2 : Int) - den.log2 - 53) leastExponent = guess
  have hScaled := scaleBinary_div num den guess
  have hPositive := scaleBinary_pos num (Nat.pos_of_ne_zero hDen) guess
  generalize scaleBinary num den guess = scaled at *
  obtain ⟨n, d⟩ := scaled
  dsimp only at *
  have hDQ : (0 : ℚ) < d := by exact_mod_cast hPositive
  have hPow : (0 : ℚ) < 2 ^ guess := by positivity
  have hWhole : n / d < 2 ^ 53 ↔ (num : ℚ) / den < 2 ^ (53 + guess) := by
    rw [Nat.div_lt_iff_lt_mul hPositive, zpow_add₀ (by norm_num), ← div_lt_iff₀ hPow, ← hScaled,
      div_lt_iff₀ hDQ]
    norm_cast
  have hHighGuess : (num : ℚ) / den < 2 ^ (54 + guess) :=
    hHigh.trans_le (zpow_le_zpow_right₀ hTwo.le (by omega))
  simp only [Nat.pow_eq]
  split
  · rename_i hSmall
    refine ⟨by omega, hWhole.1 hSmall, ?_⟩
    rcases Int.le_total ((num.log2 : Int) - den.log2 - 53) leastExponent with hLeast | hAbove
    · left
      omega
    · right
      have hExponent : 52 + guess = (num.log2 : Int) - den.log2 - 1 := by omega
      rw [hExponent]
      exact hLow.le
  · rename_i hLarge
    refine ⟨by omega, ?_, Or.inr ?_⟩
    · have hExponent : 53 + (guess + 1) = 54 + guess := by ring
      rw [hExponent]
      exact hHighGuess
    · have hExponent : 52 + (guess + 1) = 53 + guess := by ring
      rw [hExponent]
      exact not_lt.1 fun h => hLarge (hWhole.2 h)

/-! ## The nearest float -/

/-- No float is nearer to `q` than `mantissa * 2 ^ exponent`, and none with an even mantissa is as
near unless the mantissa is even itself. Below a power of two the floats lie denser. -/
structure Rounds (q : ℚ) (mantissa : Nat) (exponent : Int) : Prop where
  above : ((mantissa : ℚ) - 1 / 2) * 2 ^ exponent ≤ q
  below : q ≤ (mantissa + 1 / 2) * 2 ^ exponent
  tie : mantissa % 2 = 1 → (mantissa - 1 / 2) * 2 ^ exponent < q ∧
    q < (mantissa + 1 / 2) * 2 ^ exponent
  power : mantissa = 2 ^ 52 → leastExponent < exponent → (mantissa - 1 / 4) * 2 ^ exponent ≤ q

theorem Rounds.pos {q : ℚ} {mantissa : Nat} {exponent : Int} (h : Rounds q mantissa exponent)
    (hMantissa : mantissa ≠ 0) : 0 < q := by
  have hOne : (1 : ℚ) ≤ mantissa := by exact_mod_cast Nat.pos_of_ne_zero hMantissa
  have hPow : (0 : ℚ) < 2 ^ exponent := by positivity
  calc (0 : ℚ) < (mantissa - 1 / 2) * 2 ^ exponent := mul_pos (by linarith) hPow
    _ ≤ q := h.above

theorem rounds_self (mantissa : Nat) (exponent : Int) :
    Rounds (mantissa * 2 ^ exponent) mantissa exponent := by
  have hPow : (0 : ℚ) < 2 ^ exponent := by positivity
  refine ⟨?_, ?_, fun _ => ⟨?_, ?_⟩, fun _ _ => ?_⟩ <;> linarith

/-- At the exponent of the float itself, its mantissa is the nearest integer. -/
theorem nearestEven_of_rounds {num den mantissa : Nat} {exponent : Int} (hDen : 0 < den)
    (h : Rounds ((num : ℚ) / den) mantissa exponent) :
    nearestEven (scaleBinary num den exponent).1 (scaleBinary num den exponent).2 = mantissa := by
  have hPow : (0 : ℚ) < 2 ^ exponent := by positivity
  apply nearestEven_eq (scaleBinary_pos _ hDen exponent)
  · rw [scaleBinary_div, le_div_iff₀ hPow]
    exact h.above
  · rw [scaleBinary_div, div_le_iff₀ hPow]
    exact h.below
  · intro hOdd
    rw [scaleBinary_div, lt_div_iff₀ hPow, div_lt_iff₀ hPow]
    exact h.tie hOdd

/-- A fraction just below a power of two is rounded up to it at the exponent of the floats below. -/
theorem nearestEven_of_power {num den : Nat} {exponent : Int} (hDen : 0 < den)
    (hLow : ((2 : ℚ) ^ 52 - 1 / 4) * 2 ^ exponent ≤ num / den)
    (hHigh : (num : ℚ) / den < 2 ^ 52 * 2 ^ exponent) :
    nearestEven (scaleBinary num den (exponent - 1)).1 (scaleBinary num den (exponent - 1)).2 =
      2 ^ 53 := by
  have hPow : (0 : ℚ) < 2 ^ (exponent - 1) := by positivity
  have hDouble : (2 : ℚ) ^ exponent = 2 * 2 ^ (exponent - 1) := by
    rw [← zpow_one_add₀ (by norm_num)]
    congr 1
    ring
  rw [hDouble] at hLow hHigh
  apply nearestEven_eq (scaleBinary_pos _ hDen _)
  · rw [scaleBinary_div, le_div_iff₀ hPow]
    push_cast
    linarith
  · rw [scaleBinary_div, div_le_iff₀ hPow]
    push_cast
    linarith
  · intro hOdd
    exact absurd hOdd (by decide)

/-- The fractions near to a float are spaced like the float, but for those just below a power of
two. -/
theorem spacing_of_rounds {num den mantissa : Nat} {exponent : Int}
    (hCanonical : Canonical mantissa exponent) (hMantissa : mantissa ≠ 0) (hDen : den ≠ 0)
    (h : Rounds ((num : ℚ) / den) mantissa exponent) :
    spacing num den = exponent ∨
      spacing num den = exponent - 1 ∧ mantissa = 2 ^ 52 ∧ leastExponent < exponent ∧
        (num : ℚ) / den < 2 ^ 52 * 2 ^ exponent := by
  have hNum : num ≠ 0 := by
    rintro rfl
    simpa using h.pos hMantissa
  have hTwo : (1 : ℚ) < 2 := by norm_num
  have hPow : (0 : ℚ) < 2 ^ exponent := by positivity
  have hSmall : (mantissa : ℚ) + 1 ≤ 2 ^ 53 := by exact_mod_cast hCanonical.small
  obtain ⟨hLeast, hHigh, hLow⟩ := spacing_spec hNum hDen
  generalize spacing num den = s at *
  have hNotAbove : s ≤ exponent := by
    by_contra hAbove
    have hLow' : (2 : ℚ) ^ (52 + s) ≤ num / den := hLow.resolve_left
      (by have := hCanonical.least; omega)
    have hBelow : (num : ℚ) / den < 2 ^ (53 + exponent) :=
      calc (num : ℚ) / den ≤ (mantissa + 1 / 2) * 2 ^ exponent := h.below
        _ < 2 ^ 53 * 2 ^ exponent := by gcongr; linarith
        _ = 2 ^ (53 + exponent) := by rw [zpow_add₀ (by norm_num)]; norm_cast
    exact absurd (zpow_lt_zpow_iff_right₀ hTwo |>.1 (hLow'.trans_lt hBelow)) (by omega)
  rcases Int.lt_or_eq_of_le hNotAbove with hBelow | hEqual
  · right
    have hNormal : 2 ^ 52 ≤ mantissa := hCanonical.normal.resolve_right (by omega)
    have hNormalQ : (2 : ℚ) ^ 52 ≤ mantissa := by exact_mod_cast hNormal
    have hUpper : (num : ℚ) / den < 2 ^ 52 * 2 ^ exponent :=
      calc (num : ℚ) / den < 2 ^ (53 + s) := hHigh
        _ ≤ 2 ^ (52 + exponent) := zpow_le_zpow_right₀ hTwo.le (by omega)
        _ = 2 ^ 52 * 2 ^ exponent := by rw [zpow_add₀ (by norm_num)]; norm_cast
    have hMantissaSmall : (mantissa : ℚ) < 2 ^ 52 + 1 := by
      have := lt_of_mul_lt_mul_right (h.above.trans_lt hUpper) hPow.le
      linarith
    have hMantissaSmallNat : mantissa < 2 ^ 52 + 1 := by exact_mod_cast hMantissaSmall
    have hSpaced : exponent - 2 < s := by
      by_contra hFar
      have hLower : (2 : ℚ) ^ (51 + exponent) < 2 ^ (53 + s) :=
        calc (2 : ℚ) ^ (51 + exponent) = 2 ^ 51 * 2 ^ exponent := by
              rw [zpow_add₀ (by norm_num)]; norm_cast
          _ ≤ (mantissa - 1 / 2) * 2 ^ exponent := by gcongr; linarith
          _ ≤ num / den := h.above
          _ < 2 ^ (53 + s) := hHigh
      exact absurd (zpow_lt_zpow_iff_right₀ hTwo |>.1 hLower) (by omega)
    exact ⟨by omega, by omega, by omega, hUpper⟩
  · exact Or.inl hEqual

/-- A fraction is rounded to the float nearest to it. -/
theorem ofRatio_eq {num den mantissa : Nat} {exponent : Int} (negative : Bool)
    (hCanonical : Canonical mantissa exponent) (hMantissa : mantissa ≠ 0) (hDen : den ≠ 0)
    (h : Rounds ((num : ℚ) / den) mantissa exponent) :
    ofRatio negative num den = ofMagnitude negative (magnitudeBits mantissa exponent) := by
  have hPositive := Nat.pos_of_ne_zero hDen
  have hNum : num ≠ 0 := by
    rintro rfl
    simpa using h.pos hMantissa
  rw [ofRatio, if_neg hNum]
  dsimp only
  rcases spacing_of_rounds hCanonical hMantissa hDen h with hSame | ⟨hLess, rfl, hNormal, hBelow⟩
  · rw [hSame, nearestEven_of_rounds hPositive h]
    rfl
  · have hAbove := h.power rfl hNormal
    push_cast at hAbove
    have hBits : (exponent - 1 - leastExponent).toNat * Nat.pow 2 52 + 2 ^ 53 =
        magnitudeBits (2 ^ 52) exponent := by
      rw [magnitudeBits, Nat.pow_eq]
      omega
    rw [hLess, nearestEven_of_power hPositive hAbove hBelow, hBits]

/-! ## Numbers beyond the floats -/

/-- Halfway between the greatest float, whose mantissa has 53 bits at the exponent 971, and the power of
two behind it. -/
def overflow : ℚ := (2 ^ 53 - 1 / 2) * 2 ^ (971 : Int)

/-- A half is rounded up to an even integer, as all above it is. -/
theorem le_nearestEven_iff {num den k : Nat} (hDen : 0 < den) (hEven : k % 2 = 0) :
    k ≤ nearestEven num den ↔ (k : ℚ) - 1 / 2 ≤ num / den := by
  have hDenQ : (0 : ℚ) < den := by exact_mod_cast hDen
  have hTwice : (k : ℚ) - 1 / 2 ≤ num / den ↔ 2 * (k * den) ≤ 2 * num + den := by
    rw [le_div_iff₀ hDenQ, ← Nat.cast_le (α := ℚ)]
    push_cast
    constructor <;> intro h <;> linarith
  have hSplit : den * (num / den) + num % den = num := Nat.div_add_mod num den
  have hRest : num % den < den := Nat.mod_lt _ hDen
  rw [hTwice, nearestEven]
  generalize num / den = q at *
  generalize num % den = r at *
  subst hSplit
  -- Only an integer up to the quotient or next to it can be a matter of rounding.
  rcases Nat.lt_trichotomy k (q + 1) with hLess | rfl | hMore
  · have hProduct := Nat.mul_le_mul_right den (Nat.le_of_lt_succ hLess)
    rw [Nat.mul_comm q] at hProduct
    split_ifs <;> omega
  · rw [Nat.add_mul, Nat.mul_comm q]
    split_ifs <;> omega
  · have hProduct := Nat.mul_le_mul_right den hMore
    rw [Nat.succ_mul, Nat.add_mul, Nat.mul_comm q] at hProduct
    split_ifs <;> omega

theorem two_zpow_lt_overflow : (2 : ℚ) ^ (1023 : Int) < overflow := by
  have hPow : (0 : ℚ) < 2 ^ (971 : Int) := by positivity
  calc (2 : ℚ) ^ (1023 : Int) = 2 ^ 52 * 2 ^ (971 : Int) := by
        rw [← zpow_natCast, ← zpow_add₀ (by norm_num)]
        rfl
    _ < overflow := by
        rw [overflow, mul_lt_mul_iff_left₀ hPow]
        norm_num

theorem overflow_lt_two_zpow : overflow < (2 : ℚ) ^ (1024 : Int) := by
  have hPow : (0 : ℚ) < 2 ^ (971 : Int) := by positivity
  calc overflow < 2 ^ 53 * 2 ^ (971 : Int) := by
        rw [overflow, mul_lt_mul_iff_left₀ hPow]
        norm_num
    _ = 2 ^ (1024 : Int) := by
        rw [← zpow_natCast, ← zpow_add₀ (by norm_num)]
        rfl

/-- A fraction is a finite float if it is below the bound. -/
theorem isFinite_ofRatio_iff {negative : Bool} {num den : Nat} (hDen : den ≠ 0) :
    isFinite (ofRatio negative num den) = true ↔ (num : ℚ) / den < overflow := by
  have hTwo : (1 : ℚ) ≤ 2 := by norm_num
  rcases Nat.eq_zero_or_pos num with rfl | hPositive
  · have hBound : (0 : ℚ) < overflow := (by positivity : (0 : ℚ) < 2 ^ (1023 : Int)).trans
      two_zpow_lt_overflow
    rw [ofRatio, if_pos rfl, isFinite_ofMagnitude_iff, Nat.cast_zero, zero_div]
    exact iff_of_true (by decide) hBound
  · obtain ⟨hLeast, hHigh, hLow⟩ := spacing_spec hPositive.ne' hDen
    rw [ofRatio, if_neg hPositive.ne']
    dsimp only
    rw [isFinite_ofMagnitude_iff]
    generalize spacing num den = s at *
    have hPow : (0 : ℚ) < 2 ^ s := by positivity
    have hRounded : ∀ {k : Nat}, k % 2 = 0 →
        (k ≤ nearestEven (scaleBinary num den s).1 (scaleBinary num den s).2 ↔
          ((k : ℚ) - 1 / 2) * 2 ^ s ≤ num / den) := by
      intro k hEven
      rw [le_nearestEven_iff (scaleBinary_pos num (Nat.pos_of_ne_zero hDen) s) hEven,
        scaleBinary_div, le_div_iff₀ hPow]
    generalize nearestEven (scaleBinary num den s).1 (scaleBinary num den s).2 = rounded at *
    simp only [infinityBits, leastExponent, Nat.pow_eq] at hLeast hLow ⊢
    rcases Int.lt_trichotomy s 971 with hBelow | rfl | hAbove
    -- Below the greatest exponent nothing is rounded so far up.
    · refine iff_of_true ?_ ((hHigh.trans_le ?_).trans two_zpow_lt_overflow)
      · have hFew : rounded < 2 ^ 53 + 2 := by
          rw [← not_le, hRounded (by decide), not_le]
          refine hHigh.trans ?_
          rw [zpow_add₀ (by norm_num), zpow_ofNat]
          gcongr
          norm_num
        omega
      · exact zpow_le_zpow_right₀ hTwo (by omega)
    -- At the greatest exponent the bound is where 53 bits are too few.
    · have hFull : 2 ^ 53 ≤ rounded ↔ overflow ≤ num / den := by
        rw [hRounded (by decide), overflow, Nat.cast_pow, Nat.cast_ofNat]
      rw [← not_le (a := overflow), ← hFull]
      omega
    -- Beyond it every number is too great.
    · have hGreat : (2 : ℚ) ^ (52 + s) ≤ num / den := hLow.resolve_left (by omega)
      refine iff_of_false ?_ (not_lt.2 ?_)
      · have hMany : 2 ^ 52 ≤ rounded := by
          rw [hRounded (by decide)]
          refine le_trans ?_ hGreat
          rw [zpow_add₀ (by norm_num), zpow_ofNat]
          gcongr
          norm_num
        omega
      · calc overflow ≤ 2 ^ (1024 : Int) := overflow_lt_two_zpow.le
          _ ≤ 2 ^ (52 + s) := zpow_le_zpow_right₀ hTwo (by omega)
          _ ≤ num / den := hGreat

end FormulaOutline.Number
