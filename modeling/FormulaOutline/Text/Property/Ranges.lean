/-!
# Character ranges

A character property is a list of closed ranges of code points. That of the blank characters is short.
-/

namespace FormulaOutline.Text

/-- Whether a character lies in one of the ranges. -/
def inRanges (ranges : List (Nat × Nat)) (c : Char) : Bool :=
  ranges.any fun (first, last) => first ≤ c.toNat && c.toNat ≤ last

/-! ## Blank characters -/

/-- The characters with the property `White_Space`, as closed ranges in ascending order. -/
def blankRanges : List (Nat × Nat) := [
  (0x9, 0xD), (0x20, 0x20), (0x85, 0x85), (0xA0, 0xA0), (0x1680, 0x1680), (0x2000, 0x200A),
  (0x2028, 0x2029), (0x202F, 0x202F), (0x205F, 0x205F), (0x3000, 0x3000)]

def isBlank (c : Char) : Bool := inRanges blankRanges c

theorem isBlank_of_isWhitespace {c : Char} (h : c.isWhitespace = true) : isBlank c = true := by
  simp only [Char.isWhitespace, Bool.or_eq_true, decide_eq_true_eq] at h
  rcases h with ((rfl | rfl) | rfl) | rfl <;> decide

/-- The blanks are few enough to look at each of them. -/
theorem isBlank_eq_false {p : Char → Bool}
    (hAll : ∀ r ∈ blankRanges, ∀ n ∈ List.range' r.1 (r.2 + 1 - r.1), p (Char.ofNat n) = false)
    {c : Char} (h : p c = true) : isBlank c = false := by
  rw [← Bool.not_eq_true]
  intro hBlank
  rw [isBlank, inRanges, List.any_eq_true] at hBlank
  obtain ⟨r, hr, hIn⟩ := hBlank
  simp only [Bool.and_eq_true, decide_eq_true_eq] at hIn
  have hNot := hAll r hr c.toNat (List.mem_range'_1.2 (by omega))
  rw [Char.ofNat_toNat, h] at hNot
  cases hNot

end FormulaOutline.Text
