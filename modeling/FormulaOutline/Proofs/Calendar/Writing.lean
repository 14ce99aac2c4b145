import FormulaOutline.Calendar.Date
import FormulaOutline.Proofs.Number.Text

/-!
# Dates that are written

Month and day take two digits each, and a year of more or less than four digits has a sign, so that
no two dates are written alike. Only dates with years of four digits are read.

* `ofDigits_padded`: zeros before a number do not change it.
* `iso_injective`: what is written tells the date.
* `readIso?_eq_some`: what a text that is read as a date has in it.
* `readIso?_isoChars`: the dates that are read from what is written.
-/

namespace FormulaOutline.Calendar.Date

open Number

theorem ofDigits_padded (width n : Nat) : ofDigits (padded width n) = n := by
  rw [padded, ofDigits_zeros_before]
  exact ofDigits_digitsOf n

theorem isDigit_of_mem_padded {width n : Nat} {c : Char} (h : c ∈ padded width n) :
    c.isDigit = true := by
  rcases List.mem_append.mp h with h | h
  · rw [List.eq_of_mem_replicate h]
    rfl
  · exact isDigit_of_mem_digitsOf h

theorem length_padded {width n : Nat} (hWidth : 0 < width) (h : n < 10 ^ width) :
    (padded width n).length = width := by
  have hShort : (Nat.toDigits 10 n).length ≤ width :=
    (Nat.length_toDigits_le_iff (by decide) hWidth).mpr h
  rw [padded, List.length_append, List.length_replicate]
  omega

theorem length_padded_two {n : Nat} (h : n < 100) : (padded 2 n).length = 2 :=
  length_padded (by decide) h

theorem padded_injective {width n m : Nat} (h : padded width n = padded width m) : n = m := by
  rw [← ofDigits_padded width n, h, ofDigits_padded]

/-- Digits do not begin with a sign. -/
theorem padded_ne_signed {width n : Nat} {sign : Char} (hSign : sign.isDigit = false)
    (rest : List Char) : padded width n ≠ sign :: rest := by
  intro h
  have hDigit := isDigit_of_mem_padded (h ▸ List.mem_cons_self : sign ∈ padded width n)
  rw [hSign] at hDigit
  cases hDigit

theorem yearText_cases (y : Int) :
    (0 ≤ y ∧ yearText y = padded 4 y.toNat) ∨ (y < 0 ∧ yearText y = '-' :: padded 4 y.natAbs) ∨
      (0 ≤ y ∧ yearText y = '+' :: padded 4 y.natAbs) := by
  rw [yearText]
  by_cases hPlain : 0 ≤ y ∧ y < 10000
  · rw [if_pos hPlain]
    exact Or.inl ⟨hPlain.1, rfl⟩
  · rw [if_neg hPlain]
    by_cases hNegative : y < 0
    · rw [if_pos hNegative]
      exact Or.inr (Or.inl ⟨hNegative, rfl⟩)
    · rw [if_neg hNegative]
      exact Or.inr (Or.inr ⟨Int.not_lt.mp hNegative, rfl⟩)

theorem yearText_injective : Function.Injective yearText := by
  intro y y' h
  rcases yearText_cases y with ⟨hy, hText⟩ | ⟨hy, hText⟩ | ⟨hy, hText⟩ <;>
    rcases yearText_cases y' with ⟨hy', hText'⟩ | ⟨hy', hText'⟩ | ⟨hy', hText'⟩ <;>
      rw [hText, hText'] at h
  -- Two years of one kind have the same digits, those of two kinds begin in different ways.
  · have hSame := padded_injective h
    omega
  · exact (padded_ne_signed rfl _ h).elim
  · exact (padded_ne_signed rfl _ h).elim
  · exact (padded_ne_signed rfl _ h.symm).elim
  · have hSame := padded_injective (List.cons.inj h).2
    omega
  · cases (List.cons.inj h).1
  · exact (padded_ne_signed rfl _ h.symm).elim
  · cases (List.cons.inj h).1
  · have hSame := padded_injective (List.cons.inj h).2
    omega

theorem month_lt (d : Date) : d.month < 100 := by
  have h := d.isDay.2.1
  omega

theorem day_lt (d : Date) : d.day < 100 := by
  have h := d.isDay.2.2.2
  have hMonth : daysInMonth d.year d.month ≤ 31 := by
    unfold daysInMonth
    split_ifs <;> omega
  omega

/-- What is written tells the date: month and day take as much room in one date as in another. -/
theorem iso_injective : Function.Injective iso := by
  intro d d' h
  have hChars : d.isoChars = d'.isoChars := String.ofList_injective h
  rw [isoChars, isoChars, List.append_assoc, List.append_assoc] at hChars
  have hLength : ('-' :: padded 2 d.month ++ '-' :: padded 2 d.day).length =
      ('-' :: padded 2 d'.month ++ '-' :: padded 2 d'.day).length := by
    simp only [List.length_append, List.length_cons, length_padded_two d.month_lt,
      length_padded_two d.day_lt, length_padded_two d'.month_lt, length_padded_two d'.day_lt]
  obtain ⟨hYear, hRest⟩ := List.append_inj' hChars hLength
  obtain ⟨hMonth, hDay⟩ := List.append_inj (List.cons.inj hRest).2
    ((length_padded_two d.month_lt).trans (length_padded_two d'.month_lt).symm)
  cases d
  cases d'
  obtain rfl := yearText_injective hYear
  obtain rfl := padded_injective hMonth
  obtain rfl := padded_injective (List.cons.inj hDay).2
  rfl

theorem iso_ne_empty (d : Date) : d.iso ≠ "" := by
  intro h
  have hChars : d.isoChars = [] := String.ofList_injective h
  simp [isoChars] at hChars

/-! ## Reading what is written -/

theorem ofDigits_lt {digits : List Char} (h : ∀ c ∈ digits, c.isDigit = true) :
    ofDigits digits < 10 ^ digits.length := by
  induction digits using List.reverseRecOn with
  | nil => exact Nat.one_pos
  | append_singleton digits c ih =>
    rw [List.forall_mem_append, List.forall_mem_singleton] at h
    have hBelow := ih h.1
    have hDigit := toNat_of_isDigit h.2
    have hValue : ofDigits (digits ++ [c]) = 10 * ofDigits digits + (c.toNat - 48) :=
      List.foldl_append
    rw [hValue, List.length_append, List.length_singleton, pow_succ]
    omega

/-- A date that is read has a year of four digits, and its text has digits and hyphens alone. -/
theorem readIso?_eq_some {s : List Char} {d : Date} (h : readIso? s = some d) :
    (0 ≤ d.year ∧ d.year < 10000) ∧ ∀ c ∈ s, c.isDigit = true ∨ c = '-' := by
  unfold readIso? at h
  split at h
  · rename_i y₁ y₂ y₃ y₄ m₁ m₂ d₁ d₂
    split at h
    · rename_i hDigits
      rw [List.all_eq_true] at hDigits
      obtain ⟨hDay, hDate⟩ := Option.dite_none_right_eq_some.1 h
      cases hDate
      constructor
      · have hYear : ofDigits [y₁, y₂, y₃, y₄] < 10 ^ 4 :=
          ofDigits_lt fun c hc => hDigits c (List.mem_append_left [m₁, m₂, d₁, d₂] hc)
        dsimp only
        omega
      · simp only [List.forall_mem_cons, List.not_mem_nil, false_implies, implies_true, and_true] at hDigits ⊢
        simp [hDigits]
    · cases h
  · cases h

/-- A date with a year of four digits is read from what is written. -/
theorem readIso?_isoChars {d : Date} (hFirst : 0 ≤ d.year) (hLast : d.year < 10000) :
    readIso? d.isoChars = some d := by
  have hYearText : yearText d.year = padded 4 d.year.toNat := if_pos ⟨hFirst, hLast⟩
  have hYear : (padded 4 d.year.toNat).length = 4 := length_padded (by decide) (by omega)
  have hMonth := length_padded_two d.month_lt
  have hDay := length_padded_two d.day_lt
  have hDigits : ∀ c ∈ padded 4 d.year.toNat ++ padded 2 d.month ++ padded 2 d.day, c.isDigit = true := by
    simp only [List.forall_mem_append]
    exact ⟨⟨fun _ => isDigit_of_mem_padded, fun _ => isDigit_of_mem_padded⟩, fun _ => isDigit_of_mem_padded⟩
  have hYearValue := ofDigits_padded 4 d.year.toNat
  have hMonthValue := ofDigits_padded 2 d.month
  have hDayValue := ofDigits_padded 2 d.day
  rw [isoChars, hYearText]
  generalize padded 4 d.year.toNat = year at *
  generalize padded 2 d.month = month at *
  generalize padded 2 d.day = day at *
  obtain ⟨y₁, y₂, y₃, y₄, rfl⟩ := List.length_eq_four.1 hYear
  obtain ⟨m₁, m₂, rfl⟩ := List.length_eq_two.1 hMonth
  obtain ⟨d₁, d₂, rfl⟩ := List.length_eq_two.1 hDay
  show readIso? [y₁, y₂, y₃, y₄, '-', m₁, m₂, '-', d₁, d₂] = some d
  have hAll : [y₁, y₂, y₃, y₄, m₁, m₂, d₁, d₂].all Char.isDigit = true := List.all_eq_true.2 hDigits
  rw [readIso?, if_pos hAll, hYearValue, hMonthValue, hDayValue,
    Int.toNat_of_nonneg hFirst]
  exact dif_pos d.isDay

end FormulaOutline.Calendar.Date
