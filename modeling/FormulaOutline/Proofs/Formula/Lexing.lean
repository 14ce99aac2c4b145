import FormulaOutline.Proofs.Formula.Grammar
import FormulaOutline.Proofs.Number.Text

/-!
# Tokens of texts that are put together

Where a text ends that has only valid tokens, and what follows does not go on with its last token,
the tokens of both are the tokens of the first and those of the second.

* `Separates`: what can stand behind any token.
* `scan_cases`: the kinds of tokens and where they are read.
* `scan_append_rest`: a valid token is read the same way before such a text.
* `lexFrom_append`: the tokens of a text with another one behind it.
-/

namespace FormulaOutline.Formula

open Text

/-! ## Kinds of characters -/

theorem startsIdentifier_of_isDigit {c : Char} (h : c.isDigit = true) :
    startsIdentifier c = false := by
  have hRange := Number.toNat_of_isDigit h
  have hLetter : isAlphabetic c = false := by
    rw [isAlphabetic, if_pos (by omega), ← Bool.not_eq_true]
    intro hAlpha
    simp only [Char.isAlpha, Char.isUpper, Char.isLower, Bool.or_eq_true, Bool.and_eq_true,
      decide_eq_true_eq, UInt32.le_iff_toNat_le] at hAlpha
    change (65 ≤ c.toNat ∧ c.toNat ≤ 90) ∨ 97 ≤ c.toNat ∧ c.toNat ≤ 122 at hAlpha
    omega
  rw [startsIdentifier, hLetter, Bool.false_or, beq_eq_false_iff_ne]
  rintro rfl
  cases h

theorem continuesIdentifier_of_isDigit {c : Char} (h : c.isDigit = true) :
    continuesIdentifier c = true := by
  have hRange := Number.toNat_of_isDigit h
  have hNumeric : isNumeric c = true := by
    rw [isNumeric, if_pos (by omega)]
    exact h
  rw [continuesIdentifier, hNumeric, Bool.or_true, Bool.true_or]

theorem continuesIdentifier_of_starts {c : Char} (h : startsIdentifier c = true) :
    continuesIdentifier c = true := by
  rw [startsIdentifier] at h
  rw [continuesIdentifier, Bool.or_right_comm, h, Bool.true_or]

/-- A character is told from those of names by being none of them. -/
theorem ne_of_continues {c d : Char} (h : continuesIdentifier c = true)
    (hOther : continuesIdentifier d = false) : c ≠ d := by
  rintro rfl
  rw [h] at hOther
  cases hOther

theorem isSeparator_of_continues {c : Char} (h : continuesIdentifier c = true) :
    isSeparator c = false := by
  have hNe : ∀ d, continuesIdentifier d = false → (c == d) = false :=
    fun d hd => beq_eq_false_iff_ne.2 (ne_of_continues h hd)
  rw [isSeparator, hNe ' ' (by decide), hNe '\t' (by decide), hNe '\r' (by decide),
    hNe '\n' (by decide)]
  rfl

theorem sign_char_not_continues (s : Sign) : continuesIdentifier s.char = false := by
  cases s <;> decide

theorem ofChar?_eq_some {c : Char} {s : Sign} (h : Sign.ofChar? c = some s) : c = s.char := by
  have hFound := List.find?_some h
  exact (of_decide_eq_true hFound).symm

theorem ofChar?_char (s : Sign) : Sign.ofChar? s.char = some s := by
  cases s <;> decide

theorem ofChar?_of_continues {c : Char} (h : continuesIdentifier c = true) :
    Sign.ofChar? c = none := by
  cases hSign : Sign.ofChar? c with
  | none => rfl
  | some s => exact absurd (ofChar?_eq_some hSign) (ne_of_continues h (sign_char_not_continues s))

/-! ## What stands behind a token -/

/-- The text does not go on with a token before it. -/
def Separates : List Char → Prop
  | [] => True
  | c :: rest => continuesIdentifier c = false ∧ (c = '.' → ∀ d ∈ rest.head?, d.isDigit = false)

theorem Separates.head {rest : List Char} (h : Separates rest) :
    ∀ c ∈ rest.head?, continuesIdentifier c = false := by
  cases rest with
  | nil => exact fun c hc => nomatch hc
  | cons c rest =>
    intro c' hc
    cases hc
    exact h.1

theorem Separates.head_digit {rest : List Char} (h : Separates rest) :
    ∀ c ∈ rest.head?, c.isDigit = false := by
  intro c hc
  rw [← Bool.not_eq_true]
  intro hDigit
  have hContinues := continuesIdentifier_of_isDigit hDigit
  rw [h.head c hc] at hContinues
  cases hContinues

section Prefix

variable {p : Char → Bool} {s rest : List Char}

theorem takeWhile_append_rest (h : s.dropWhile p ≠ [] ∨ ∀ c ∈ rest.head?, p c = false) :
    (s ++ rest).takeWhile p = s.takeWhile p := by
  induction s with
  | nil =>
    cases rest with
    | nil => rfl
    | cons c rest =>
      rcases h with h | h
      · exact absurd rfl h
      · simp [h c rfl]
  | cons c s ih =>
    rw [List.cons_append, List.takeWhile_cons, List.takeWhile_cons]
    split
    · rename_i hHead
      rw [List.dropWhile_cons_of_pos hHead] at h
      rw [ih h]
    · rfl

theorem dropWhile_append_rest (h : s.dropWhile p ≠ [] ∨ ∀ c ∈ rest.head?, p c = false) :
    (s ++ rest).dropWhile p = s.dropWhile p ++ rest := by
  induction s with
  | nil =>
    cases rest with
    | nil => rfl
    | cons c rest =>
      rcases h with h | h
      · exact absurd rfl h
      · simp [h c rfl]
  | cons c s ih =>
    rw [List.cons_append, List.dropWhile_cons, List.dropWhile_cons]
    split
    · rename_i hHead
      rw [List.dropWhile_cons_of_pos hHead] at h
      exact ih h
    · rfl

end Prefix

/-! ## Single tokens -/

/-- The characters that have a meaning of their own after a backslash. -/
def escapedChars : List Char := ['n', 't', '\\', '"']

/-- A character that neither closes the literal nor starts an escape stands for itself. -/
theorem scanString_plain {c : Char} {s : List Char} (hQuote : c ≠ '"')
    (hEscape : c = '\\' → ∀ d ∈ s.head?, d ∉ escapedChars) :
    scanString (c :: s) =
      ((scanString s).1.map (c :: ·), c :: (scanString s).2.1, (scanString s).2.2) := by
  rw [scanString]
  · exact hQuote
  all_goals
    rintro rest hBackslash rfl
    exact absurd (by decide) (hEscape hBackslash _ rfl)

theorem scanString_append_rest {s v text after : List Char} (rest : List Char)
    (h : scanString s = (some v, text, after)) :
    scanString (s ++ rest) = (some v, text, after ++ rest) := by
  fun_induction scanString s generalizing v text after with
  | case1 => cases h
  | case2 r =>
    cases h
    rfl
  | case3 r v' t' a' hScan ih | case4 r v' t' a' hScan ih | case5 r v' t' a' hScan ih
  | case6 r v' t' a' hScan ih =>
    simp only [Prod.mk.injEq, Option.map_eq_some_iff] at h
    obtain ⟨⟨v, rfl, rfl⟩, rfl, rfl⟩ := h
    simp [scanString, ih hScan]
  | case7 c r hQuote hN hT hBackslash hEscaped v' t' a' hScan ih =>
    simp only [Prod.mk.injEq, Option.map_eq_some_iff] at h
    obtain ⟨⟨v, rfl, rfl⟩, rfl, rfl⟩ := h
    cases r with
    | nil => cases hScan
    | cons d r =>
      rw [List.cons_append, scanString_plain hQuote, ih hScan]
      · rfl
      · intro hc d' hd hMem
        cases hd
        simp only [escapedChars, List.mem_cons, List.not_mem_nil, or_false] at hMem
        rcases hMem with rfl | rfl | rfl | rfl
        · exact hN r hc rfl
        · exact hT r hc rfl
        · exact hBackslash r hc rfl
        · exact hEscaped r hc rfl

theorem scanReference_append_rest {s : List Char} (rest : List Char)
    (h : ∀ cause, (scanReference s).kind ≠ .invalid cause) :
    scanReference (s ++ rest) =
      ⟨(scanReference s).kind, (scanReference s).text, (scanReference s).rest ++ rest⟩ := by
  unfold scanReference at h ⊢
  split at h
  · rename_i r
    split at h
    · rename_i after hDrop
      have hStop : r.dropWhile isIdChar ≠ [] := by simp [hDrop]
      simp only [List.cons_append, takeWhile_append_rest (Or.inl hStop),
        dropWhile_append_rest (Or.inl hStop), hDrop]
    · exact absurd rfl (h _)
    · exact absurd rfl (h _)
  · exact absurd rfl (h _)

/-- The text goes on with a point and a digit. -/
def HasFraction (s : List Char) : Prop := ∃ d after, s = '.' :: d :: after ∧ d.isDigit = true

theorem scanNumber_of_fraction {s after : List Char} {d : Char} (hDigit : d.isDigit = true)
    (h : s.dropWhile Char.isDigit = '.' :: d :: after) :
    scanNumber s =
      ⟨.number (Number.ofDecimal false
          (Number.ofDigits (s.takeWhile Char.isDigit ++ (d :: after).takeWhile Char.isDigit))
          (-((d :: after).takeWhile Char.isDigit).length)),
        s.takeWhile Char.isDigit ++ '.' :: (d :: after).takeWhile Char.isDigit,
        (d :: after).dropWhile Char.isDigit⟩ := by
  simp only [scanNumber, h, hDigit, if_true]

theorem scanNumber_of_whole {s : List Char} (h : ¬ HasFraction (s.dropWhile Char.isDigit)) :
    scanNumber s =
      ⟨.number (Number.ofDecimal false (Number.ofDigits (s.takeWhile Char.isDigit)) 0),
        s.takeWhile Char.isDigit, s.dropWhile Char.isDigit⟩ := by
  rw [scanNumber]
  dsimp only
  split
  · rename_i d after hDrop
    split
    · rename_i hDigit
      exact absurd ⟨d, after, hDrop, hDigit⟩ h
    · rw [hDrop]
  · rfl

theorem Separates.not_hasFraction {rest : List Char} (h : Separates rest) :
    ¬ HasFraction rest := by
  rintro ⟨d, after, rfl, hDigit⟩
  rw [h.2 rfl d rfl] at hDigit
  cases hDigit

theorem hasFraction_append_rest {s rest : List Char}
    (hDigit : ∀ c ∈ rest.head?, c.isDigit = false) (hPoint : ¬ HasFraction rest) :
    HasFraction (s ++ rest) ↔ HasFraction s := by
  constructor
  · rintro ⟨d, after, hText, hNext⟩
    match s with
    | [] => exact absurd ⟨d, after, hText, hNext⟩ hPoint
    | [c] =>
      cases hText
      rw [hDigit d rfl] at hNext
      cases hNext
    | c :: d' :: s =>
      cases hText
      exact ⟨d, s, rfl, hNext⟩
  · rintro ⟨d, after, rfl, hNext⟩
    exact ⟨d, after ++ rest, rfl, hNext⟩

/-- A number is read the same way before a text that goes on with neither digits nor a fraction. -/
theorem scanNumber_append_rest (s : List Char) {rest : List Char}
    (hDigit : ∀ c ∈ rest.head?, c.isDigit = false) (hPoint : ¬ HasFraction rest) :
    scanNumber (s ++ rest) =
      ⟨(scanNumber s).kind, (scanNumber s).text, (scanNumber s).rest ++ rest⟩ := by
  have hTake := takeWhile_append_rest (s := s) (Or.inr hDigit)
  have hDrop := dropWhile_append_rest (s := s) (Or.inr hDigit)
  by_cases h : HasFraction (s.dropWhile Char.isDigit)
  · obtain ⟨d, after, hText, hNext⟩ := h
    rw [hText, List.cons_append, List.cons_append] at hDrop
    rw [scanNumber_of_fraction hNext hText, scanNumber_of_fraction hNext hDrop, hTake,
      ← List.cons_append, takeWhile_append_rest (Or.inr hDigit),
      dropWhile_append_rest (Or.inr hDigit)]
  · have hNone : ¬ HasFraction ((s ++ rest).dropWhile Char.isDigit) := by
      rwa [hDrop, hasFraction_append_rest hDigit hPoint]
    rw [scanNumber_of_whole h, scanNumber_of_whole hNone, hTake, hDrop]

theorem scanIdentifier_append_rest (s : List Char) {rest : List Char} (hRest : Separates rest) :
    scanIdentifier (s ++ rest) =
      ⟨(scanIdentifier s).kind, (scanIdentifier s).text, (scanIdentifier s).rest ++ rest⟩ := by
  rw [scanIdentifier, scanIdentifier, takeWhile_append_rest (Or.inr hRest.head),
    dropWhile_append_rest (Or.inr hRest.head)]

theorem scan_of_isDigit {c : Char} (s : List Char) (h : c.isDigit = true) :
    scan c s = scanNumber (c :: s) := by
  have hContinues := continuesIdentifier_of_isDigit h
  rw [scan, ofChar?_of_continues hContinues]
  dsimp only
  rw [if_neg (ne_of_continues hContinues (by decide)),
    if_neg (ne_of_continues hContinues (by decide)), if_pos h]

theorem scan_of_starts {c : Char} (s : List Char) (h : startsIdentifier c = true) :
    scan c s = scanIdentifier (c :: s) := by
  have hContinues := continuesIdentifier_of_starts h
  have hDigit : c.isDigit ≠ true := by
    intro hDigit
    rw [startsIdentifier_of_isDigit hDigit] at h
    cases h
  rw [scan, ofChar?_of_continues hContinues]
  dsimp only
  rw [if_neg (ne_of_continues hContinues (by decide)),
    if_neg (ne_of_continues hContinues (by decide)), if_neg hDigit, if_pos h]

/-- The kinds of tokens, by the characters they start with. -/
theorem scan_cases (c : Char) (s : List Char) :
    (∃ sign, c = sign.char ∧ scan c s = ⟨.sign sign, [c], s⟩) ∨
    (c = '#' ∧ scan c s = scanReference s) ∨
    (c = '"' ∧ ∃ v text after, scanString s = (some v, text, after) ∧
      scan c s = ⟨.string (String.ofList v), '"' :: text, after⟩) ∨
    (c.isDigit = true ∧ scan c s = scanNumber (c :: s)) ∨
    (startsIdentifier c = true ∧ scan c s = scanIdentifier (c :: s)) ∨
    (c = '"' ∧ ∃ text after, scanString s = (none, text, after) ∧
      scan c s = ⟨.invalid .unterminatedString, '"' :: text, after⟩) ∨
    (c ≠ '"' ∧ (∀ sign : Sign, c ≠ sign.char) ∧ scan c s = ⟨.invalid (.unexpected c), [c], s⟩) := by
  cases hSign : Sign.ofChar? c with
  | some sign => exact .inl ⟨sign, ofChar?_eq_some hSign, by rw [scan, hSign]⟩
  | none =>
    by_cases hHash : c = '#'
    · exact .inr (.inl ⟨hHash, by simp only [scan, hSign, if_pos hHash]⟩)
    by_cases hQuote : c = '"'
    · rcases hScan : scanString s with ⟨_ | v, text, after⟩
      · refine .inr (.inr (.inr (.inr (.inr (.inl ⟨hQuote, text, after, rfl, ?_⟩)))))
        simp only [scan, hSign, if_neg hHash, if_pos hQuote, hScan]
      · refine .inr (.inr (.inl ⟨hQuote, v, text, after, rfl, ?_⟩))
        simp only [scan, hSign, if_neg hHash, if_pos hQuote, hScan]
    by_cases hDigit : c.isDigit = true
    · exact .inr (.inr (.inr (.inl ⟨hDigit, scan_of_isDigit s hDigit⟩)))
    by_cases hStart : startsIdentifier c = true
    · exact .inr (.inr (.inr (.inr (.inl ⟨hStart, scan_of_starts s hStart⟩))))
    · refine .inr (.inr (.inr (.inr (.inr (.inr ⟨hQuote, ?_, ?_⟩)))))
      · rintro sign rfl
        rw [ofChar?_char] at hSign
        cases hSign
      · simp only [scan, hSign, if_neg hHash, if_neg hQuote, if_neg hDigit, if_neg hStart]

/-- A valid token is read the same way before a text that does not go on with it. -/
theorem scan_append_rest {c : Char} {s rest : List Char}
    (hValid : ∀ cause, (scan c s).kind ≠ .invalid cause) (hRest : Separates rest) :
    scan c (s ++ rest) = ⟨(scan c s).kind, (scan c s).text, (scan c s).rest ++ rest⟩ := by
  unfold scan at hValid ⊢
  split
  · rfl
  · rename_i hSign
    simp only [hSign] at hValid
    split
    · rename_i hHash
      rw [if_pos hHash] at hValid
      exact scanReference_append_rest rest hValid
    · rename_i hHash
      rw [if_neg hHash] at hValid
      split
      · rename_i hQuote
        rw [if_pos hQuote] at hValid
        rcases hScan : scanString s with ⟨_ | v, text, after⟩
        · rw [hScan] at hValid
          exact absurd rfl (hValid _)
        · rw [scanString_append_rest rest hScan]
      · split
        · exact scanNumber_append_rest (c :: s) hRest.head_digit hRest.not_hasFraction
        · split
          · exact scanIdentifier_append_rest (c :: s) hRest
          · rfl

/-! ## All tokens -/

theorem lexFrom_separator (p : Position) {c : Char} (s : List Char) (h : isSeparator c = true) :
    lexFrom p (c :: s) = lexFrom (p.next c) s := by
  rw [lexFrom, if_pos h]

theorem lexFrom_cons (p : Position) {c : Char} (s : List Char) (h : isSeparator c = false) :
    lexFrom p (c :: s) =
      ⟨⟨(scan c s).kind, (scan c s).text, .between p (p.along (scan c s).text)⟩ ::
        (lexFrom (p.along (scan c s).text) (scan c s).rest).tokens,
        (lexFrom (p.along (scan c s).text) (scan c s).rest).stop⟩ := by
  rw [lexFrom, if_neg (by simp [h])]

theorem lexFrom_token (p : Position) {c : Char} {s rest text : List Char} {kind : TokenKind}
    (h : isSeparator c = false) (hScan : scan c s = ⟨kind, text, rest⟩) :
    lexFrom p (c :: s) =
      ⟨⟨kind, text, .between p (p.along text)⟩ :: (lexFrom (p.along text) rest).tokens,
        (lexFrom (p.along text) rest).stop⟩ := by
  rw [lexFrom_cons p s h, hScan]

theorem Token.kind_ne_invalid {t : Token} (h : t.invalid? = none) :
    ∀ cause, t.kind ≠ .invalid cause := by
  intro cause hKind
  rw [Token.invalid?, hKind] at h
  cases h

/-- The tokens of a text with another one behind it. -/
theorem lexFrom_append {p : Position} {s rest : List Char}
    (hValid : ∀ t ∈ (lexFrom p s).tokens, t.invalid? = none) (hRest : Separates rest) :
    lexFrom p (s ++ rest) =
      ⟨(lexFrom p s).tokens ++ (lexFrom (lexFrom p s).stop rest).tokens,
        (lexFrom (lexFrom p s).stop rest).stop⟩ := by
  fun_induction lexFrom p s with
  | case1 => rfl
  | case2 p c s hSeparator ih =>
    rw [List.cons_append, lexFrom_separator _ _ hSeparator, ih hValid]
  | case3 p c s hSeparator scanned stop later ih =>
    simp only [List.forall_mem_cons] at hValid
    have hScan := scan_append_rest (Token.kind_ne_invalid hValid.1) hRest
    rw [List.cons_append, lexFrom_token _ (by simpa using hSeparator) hScan]
    change _ = (⟨_ :: (later.tokens ++ _), _⟩ : Lexed)
    rw [ih hValid.2]

end FormulaOutline.Formula
