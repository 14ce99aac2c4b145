import FormulaOutline.Formula.Bullet
import FormulaOutline.Proofs.Formula.Lexing
import FormulaOutline.Proofs.Formula.Slices

/-!
# Where a formula ends

The end of a formula is searched for before its tokens are read, so the tokens are those of the text
up to the brace that was found. The search goes by characters and knows string literals only, while the
reader cuts the text into tokens, and takes pieces that are none for faults. Still both keep in step: the
texts that the search passes over are those without a closing brace among their tokens and without a
string literal that is left open.

* `Passes`: a text that the search passes over.
* `passes_string`, `splitInline_of_unclosed`: it takes the same end for that of a string literal,
  though it sees escapes where the reader sees none.
* `passes_iff`: the tokens of the texts that it passes over.
* `splitInline_of_proper`: it finds the brace after a text of proper tokens.
* `splitInline_eq_find`: the search and the tokens of a text that starts anywhere.
* `closingBrace?`: the search in a source, by offsets.
* `closingBrace_agrees`: it stops at the first closing brace among the tokens, and the tokens up to
  there are neither closing braces nor string literals that are left open.
-/

namespace FormulaOutline.Formula

open Text

-- Many proofs below open this function, whose equations are generated here, once.
attribute [local simp] splitInline

/-! ## Passing over texts -/

/-- The search for the closing brace passes over the text. The flags say whether a string literal
is open before and after the text. -/
def Passes (before : Bool) (s : List Char) (after : Bool) : Prop :=
  ∀ rest, splitInline before (s ++ rest) =
    (splitInline after rest).map fun found => (s ++ found.1, found.2)

theorem passes_nil (quoted : Bool) : Passes quoted [] quoted := by
  intro rest
  simp

theorem Passes.append {before between after : Bool} {s t : List Char}
    (hS : Passes before s between) (hT : Passes between t after) :
    Passes before (s ++ t) after := by
  intro rest
  rw [List.append_assoc, hS, hT, Option.map_map]
  congr 1
  funext found
  simp

theorem Passes.cons {before between after : Bool} {c : Char} {s : List Char}
    (hC : Passes before [c] between) (hS : Passes between s after) :
    Passes before (c :: s) after :=
  hC.append hS

/-- No brace is found in what is passed over. -/
theorem Passes.eq_none {before after : Bool} {s rest : List Char} (hS : Passes before s after)
    (h : splitInline after rest = none) : splitInline before (s ++ rest) = none := by
  rw [hS, h, Option.map_none]

/-- A character that neither opens a string literal nor closes the formula. -/
def IsInert (c : Char) : Prop := c ≠ '"' ∧ c ≠ '\x7d'

instance : DecidablePred IsInert := fun _ => inferInstanceAs (Decidable (_ ∧ _))

theorem passes_plain {c : Char} (h : IsInert c) : Passes false [c] false := by
  intro rest
  rw [List.singleton_append, splitInline]
  · rfl
  · exact fun _ hc => absurd hc h.2
  · exact fun _ hc => absurd hc h.1
  · simp
  · simp

theorem passes_all_plain {s : List Char} (h : ∀ c ∈ s, IsInert c) : Passes false s false := by
  induction s with
  | nil => exact passes_nil false
  | cons c s ih =>
    rw [List.forall_mem_cons] at h
    exact .cons (passes_plain h.1) (ih h.2)

theorem passes_quote (quoted : Bool) : Passes quoted ['"'] (!quoted) := by
  intro rest
  cases quoted <;> rw [List.singleton_append, splitInline] <;> rfl

/-- An escape is passed over whatever stands after the backslash. -/
theorem passes_escape (c : Char) : Passes true ['\\', c] true := by
  intro rest
  rw [List.cons_append, List.singleton_append, splitInline]
  rfl

theorem passes_quoted {c : Char} (hQuote : c ≠ '"') (hBackslash : c ≠ '\\') :
    Passes true [c] true := by
  intro rest
  rw [List.singleton_append, splitInline]
  · rfl
  · simp
  · simp
  · exact fun _ hc => absurd hc hQuote
  · exact fun _ _ _ hc => absurd hc hBackslash

/-- What stands behind a text that is passed over is passed over if both are. -/
theorem Passes.right {before between after : Bool} {s t : List Char}
    (hS : Passes before s between) (h : Passes before (s ++ t) after) : Passes between t after := by
  intro rest
  have hWhole := h rest
  rw [List.append_assoc, hS] at hWhole
  have hInjective : Function.Injective
      fun found : List Char × List Char => (s ++ found.1, found.2) := by
    rintro ⟨a, b⟩ ⟨a', b'⟩ hSame
    simpa using hSame
  apply Option.map_injective hInjective
  rw [hWhole, Option.map_map]
  congr 1
  funext found
  simp

/-- The search passes over the text before the brace that it finds. -/
theorem passes_inside {quoted : Bool} {s inside after : List Char}
    (h : splitInline quoted s = some (inside, after)) : Passes quoted inside false := by
  fun_induction splitInline quoted s generalizing inside after with
  | case1 => cases h
  | case2 rest =>
    cases h
    exact passes_nil false
  | case3 rest ih | case4 rest ih =>
    obtain ⟨⟨i, a⟩, hFound, hSame⟩ := Option.map_eq_some_iff.mp h
    cases hSame
    exact .cons (passes_quote _) (ih hFound)
  | case5 c rest ih =>
    obtain ⟨⟨i, a⟩, hFound, hSame⟩ := Option.map_eq_some_iff.mp h
    cases hSame
    exact (passes_escape c).append (ih hFound)
  | case6 quoted c rest hBrace hOpen hClose hEscape ih =>
    obtain ⟨⟨i, a⟩, hFound, hSame⟩ := Option.map_eq_some_iff.mp h
    cases hSame
    refine .cons ?_ (ih hFound)
    cases quoted with
    | false => exact passes_plain ⟨hOpen rfl, hBrace rfl⟩
    | true =>
      refine passes_quoted (hClose rfl) ?_
      rintro rfl
      -- A backslash that escapes nothing is the last character, and no brace is found behind it.
      cases rest with
      | nil => cases hFound
      | cons d rest => exact hEscape d rest rfl rfl rfl

/-- A closing brace is not passed over. -/
theorem not_passes_brace (s : List Char) : ¬ Passes false ('\x7d' :: s) false := by
  intro h
  have hNone := h []
  rw [List.cons_append, splitInline, splitInline] at hNone
  cases hNone

/-! ## Passing over tokens -/

/-- The search passes over a string literal that is closed. -/
theorem passes_string {s v text after : List Char} (h : scanString s = (some v, text, after)) :
    Passes true text false := by
  fun_induction scanString s generalizing v text after with
  | case1 => cases h
  | case2 r =>
    cases h
    exact passes_quote true
  | case3 r v' t' a' hScan ih | case4 r v' t' a' hScan ih | case5 r v' t' a' hScan ih
  | case6 r v' t' a' hScan ih =>
    simp only [Prod.mk.injEq, Option.map_eq_some_iff] at h
    obtain ⟨⟨v, rfl, rfl⟩, rfl, rfl⟩ := h
    exact (passes_escape _).append (ih hScan)
  | case7 c r hQuote hN hT hBackslash hEscaped v' t' a' hScan ih =>
    simp only [Prod.mk.injEq, Option.map_eq_some_iff] at h
    obtain ⟨⟨v, rfl, rfl⟩, rfl, rfl⟩ := h
    by_cases hc : c = '\\'
    · -- The search takes the next character for escaped, the reader takes it for itself.
      subst hc
      cases r with
      | nil => cases hScan
      | cons d r =>
        have hQuote' : d ≠ '"' := fun hd => hEscaped r rfl (by rw [hd])
        have hBackslash' : d ≠ '\\' := fun hd => hBackslash r rfl (by rw [hd])
        have hText : t' = d :: (scanString r).2.1 := by
          rw [scanString_plain hQuote' fun h => absurd h hBackslash'] at hScan
          exact (congrArg (fun scanned => scanned.2.1) hScan).symm
        have hPasses := ih hScan
        rw [hText] at hPasses ⊢
        exact (passes_escape d).append ((passes_quoted hQuote' hBackslash').right hPasses)
    · exact .cons (passes_quoted hQuote hc) (ih hScan)

/-- The search finds no brace behind a quotation mark that is the last one. -/
theorem splitInline_of_no_quote {s : List Char} (h : '"' ∉ s) : splitInline true s = none := by
  induction hLength : s.length using Nat.strong_induction_on generalizing s with
  | _ n ih =>
  cases s with
  | nil => rfl
  | cons c s =>
    rw [List.length_cons] at hLength
    obtain ⟨hQuote, hMore⟩ := not_or.mp (mt List.mem_cons.mpr h)
    by_cases hBackslash : c = '\\'
    · subst hBackslash
      cases s with
      | nil => rfl
      | cons d s =>
        have hNone := ih s.length (by rw [List.length_cons] at hLength; omega)
          (fun hMem => hMore (List.mem_cons_of_mem d hMem)) rfl
        exact (passes_escape d).eq_none hNone
    · have hNone := ih s.length (by omega) hMore rfl
      exact (passes_quoted (Ne.symm hQuote) hBackslash).eq_none hNone

/-- The search finds no brace behind a string literal that is left open. -/
theorem splitInline_of_unclosed {s rest : List Char} (h : (scanString s).1 = none)
    (hRest : '"' ∉ rest) : splitInline true (s ++ rest) = none := by
  fun_induction scanString s with
  | case1 => exact splitInline_of_no_quote hRest
  | case2 => cases h
  | case3 r v t a hScan ih | case4 r v t a hScan ih | case5 r v t a hScan ih
  | case6 r v t a hScan ih =>
    have hNone := ih (by rw [hScan]; exact Option.map_eq_none_iff.mp h)
    exact (passes_escape _).eq_none hNone
  | case7 c r hQuote hN hT hBackslash hEscaped v t a hScan ih =>
    have hNone := ih (by rw [hScan]; exact Option.map_eq_none_iff.mp h)
    by_cases hc : c = '\\'
    · subst hc
      cases r with
      | nil => exact splitInline_of_no_quote (by simpa using hRest)
      | cons d r =>
        have hQuote' : d ≠ '"' := fun hd => hEscaped r rfl (by rw [hd])
        have hBackslash' : d ≠ '\\' := fun hd => hBackslash r rfl (by rw [hd])
        rw [List.cons_append, ← List.singleton_append, passes_quoted hQuote' hBackslash',
          Option.map_eq_none_iff] at hNone
        exact (passes_escape d).eq_none hNone
    · exact (passes_quoted hQuote hc).eq_none hNone

/-- A string literal that is left open is not passed over. -/
theorem not_passes_unclosed {s : List Char} (h : (scanString s).1 = none) :
    ¬ Passes false ('"' :: s) false := by
  intro hPasses
  have hInside := (passes_quote false).right hPasses ['\x7d']
  rw [Bool.not_false, splitInline_of_unclosed h (by decide)] at hInside
  cases hInside

/-- A string literal that is left open takes all of the text. -/
theorem scanString_of_unclosed {s : List Char} (h : (scanString s).1 = none) :
    scanString s = (none, s, []) := by
  have hEnd : (scanString s).2.2 = [] := by
    fun_induction scanString s with
    | case1 => rfl
    | case2 => cases h
    | case3 r v t a hScan ih | case4 r v t a hScan ih | case5 r v t a hScan ih
    | case6 r v t a hScan ih | case7 c r hQuote hN hT hBackslash hEscaped v t a hScan ih =>
      rw [hScan] at ih
      exact ih (Option.map_eq_none_iff.mp h)
  have hWhole := scanString_append s
  rw [hEnd, List.append_nil] at hWhole
  exact Prod.ext h (Prod.ext hWhole hEnd)

theorem isInert_of_continues {c : Char} (h : continuesIdentifier c = true) : IsInert c :=
  ⟨ne_of_continues h (by decide), ne_of_continues h (by decide)⟩

theorem isInert_of_isIdChar {c : Char} (h : isIdChar c = true) : IsInert c := by
  constructor <;> rintro rfl <;> revert h <;> decide

theorem passes_reference (s : List Char) : Passes false (scanReference s).text false := by
  have hHash : Passes false ['#'] false := passes_plain (by decide)
  unfold scanReference
  split
  · rename_i r
    have hId : Passes false ('[' :: r.takeWhile isIdChar) false :=
      .cons (passes_plain (by decide)) (passes_all_plain fun c hc =>
        isInert_of_isIdChar (List.mem_takeWhile_imp hc))
    split
    · exact .cons hHash (hId.append (passes_plain (by decide)))
    · exact .cons hHash hId
    · exact .cons hHash hId
  · exact hHash

theorem passes_number (s : List Char) : Passes false (scanNumber s).text false := by
  have hDigits : ∀ t : List Char, Passes false (t.takeWhile Char.isDigit) false := fun t =>
    passes_all_plain fun c hc =>
      isInert_of_continues (continuesIdentifier_of_isDigit (List.mem_takeWhile_imp hc))
  by_cases h : HasFraction (s.dropWhile Char.isDigit)
  · obtain ⟨d, after, hText, hDigit⟩ := h
    rw [scanNumber_of_fraction hDigit hText]
    exact (hDigits s).append (.cons (passes_plain (by decide)) (hDigits _))
  · rw [scanNumber_of_whole h]
    exact hDigits s

/-- A token that the search passes over. -/
def Token.IsPassed (t : Token) : Prop :=
  t.kind ≠ .sign .rightBrace ∧ t.kind ≠ .invalid .unterminatedString

theorem Token.Proper.isPassed {t : Token} (h : t.Proper) : t.IsPassed :=
  ⟨h.2.2, Token.kind_ne_invalid h.1 _⟩

theorem isPassed_scanReference (s text : List Char) (span : Span) :
    Token.IsPassed ⟨(scanReference s).kind, text, span⟩ := by
  unfold scanReference
  split
  · split
    · dsimp only
      split <;> constructor <;> simp
    · constructor <;> simp
    · constructor <;> simp
  · constructor <;> simp

theorem isPassed_scanNumber (s text : List Char) (span : Span) :
    Token.IsPassed ⟨(scanNumber s).kind, text, span⟩ := by
  unfold scanNumber
  split
  · split <;> constructor <;> simp
  · constructor <;> simp

/-- A piece of the source is a closing brace, a string literal that is left open and has no end, or
a token that the search passes over. -/
theorem scan_passes_cases (c : Char) (s : List Char) (span : Span) :
    (c = '\x7d' ∧ scan c s = ⟨.sign .rightBrace, ['\x7d'], s⟩) ∨
    (c = '"' ∧ (scanString s).1 = none ∧
      scan c s = ⟨.invalid .unterminatedString, '"' :: s, []⟩) ∨
    Token.IsPassed ⟨(scan c s).kind, (scan c s).text, span⟩ ∧
      Passes false (scan c s).text false := by
  rcases scan_cases c s with ⟨sign, rfl, hScan⟩ | ⟨-, hScan⟩ | ⟨-, v, text, after, hString, hScan⟩ |
    ⟨-, hScan⟩ | ⟨-, hScan⟩ | ⟨hQuote, text, after, hString, hScan⟩ | ⟨hQuote, hSign, hScan⟩
  · by_cases hBrace : sign = .rightBrace
    · subst hBrace
      exact .inl ⟨rfl, hScan⟩
    · rw [hScan]
      refine .inr (.inr ⟨⟨by simpa using hBrace, by simp⟩, passes_plain ?_⟩)
      revert hBrace
      cases sign <;> simp [Sign.char, IsInert]
  · rw [hScan]
    exact .inr (.inr ⟨isPassed_scanReference s _ span, passes_reference s⟩)
  · rw [hScan]
    refine .inr (.inr ⟨by constructor <;> simp, .cons (passes_quote false) (passes_string hString)⟩)
  · rw [hScan]
    exact .inr (.inr ⟨isPassed_scanNumber _ _ span, passes_number (c :: s)⟩)
  · rw [hScan]
    refine .inr (.inr ⟨by constructor <;> simp [scanIdentifier], ?_⟩)
    exact passes_all_plain fun d hd => isInert_of_continues (List.mem_takeWhile_imp hd)
  · have hOpen : (scanString s).1 = none := by rw [hString]
    rw [scanString_of_unclosed hOpen] at hString
    cases hString
    exact .inr (.inl ⟨hQuote, hOpen, hScan⟩)
  · rw [hScan]
    exact .inr (.inr ⟨by constructor <;> simp, passes_plain ⟨hQuote, hSign .rightBrace⟩⟩)

/-! ## Passing over formulas -/

theorem isInert_of_isSeparator {c : Char} (h : isSeparator c = true) : IsInert c := by
  constructor <;> rintro rfl <;> revert h <;> decide

/-- The search passes over a text just when it passes over each of its tokens. -/
theorem passes_iff (p : Position) (s : List Char) :
    Passes false s false ↔ ∀ t ∈ (lexFrom p s).tokens, t.IsPassed := by
  fun_induction lexFrom p s with
  | case1 => exact ⟨fun _ => List.forall_mem_nil _, fun _ => passes_nil false⟩
  | case2 p c s hSeparator ih =>
    have hSpace := passes_plain (isInert_of_isSeparator hSeparator)
    exact ⟨fun h => ih.mp (hSpace.right h), fun h => hSpace.cons (ih.mpr h)⟩
  | case3 p c s hSeparator scanned stop later ih =>
    rw [List.forall_mem_cons]
    rcases scan_passes_cases c s (.between p stop) with
      ⟨rfl, hScan⟩ | ⟨rfl, hOpen, hScan⟩ | ⟨hPassed, hPasses⟩
    · refine ⟨fun h => absurd h (not_passes_brace s), fun h => absurd ?_ h.1.1⟩
      exact congrArg Scanned.kind hScan
    · refine ⟨fun h => absurd h (not_passes_unclosed hOpen), fun h => absurd ?_ h.1.2⟩
      exact congrArg Scanned.kind hScan
    · rw [← scan_append c s]
      exact ⟨fun h => ⟨hPassed, ih.mp (hPasses.right h)⟩, fun h => hPasses.append (ih.mpr h.2)⟩

/-- The brace behind a text of proper tokens is the one that closes it. -/
theorem splitInline_of_proper {p : Position} {s : List Char} (rest : List Char)
    (h : ∀ t ∈ (lexFrom p s).tokens, t.Proper) :
    splitInline false (s ++ '\x7d' :: rest) = some (s, rest) := by
  rw [(passes_iff p s).mpr fun t ht => (h t ht).isPassed, splitInline, Option.map_some,
    List.append_nil]

/-! ## Closing braces among tokens -/

def Token.closes (t : Token) : Bool := t.sign? = some .rightBrace

theorem Token.closes_iff {t : Token} : t.closes = true ↔ t.kind = .sign .rightBrace := by
  rw [Token.closes, decide_eq_true_iff, Token.sign?_eq_some_iff]

/-- The search stops where the first closing brace among the tokens starts. -/
theorem splitInline_eq_find (p : Position) (s : List Char) :
    (splitInline false s).map (fun found => p.offset + byteLength found.1) =
      ((lexFrom p s).tokens.find? Token.closes).map (·.span.start) := by
  fun_induction lexFrom p s with
  | case1 p => rfl
  | case2 p c s hSeparator ih =>
    have hSpace := passes_plain (isInert_of_isSeparator hSeparator) s
    rw [← ih, offset_next, ← List.singleton_append, hSpace, Option.map_map]
    congr 1
    funext found
    simp only [Function.comp_apply, List.singleton_append, byteLength, Nat.add_assoc]
  | case3 p c s hSeparator scanned stop later ih =>
    rcases scan_passes_cases c s (.between p stop) with
      ⟨rfl, hScan⟩ | ⟨rfl, hOpen, hScan⟩ | ⟨hPassed, hPasses⟩
    · rw [List.find?_cons_of_pos (Token.closes_iff.mpr (congrArg Scanned.kind hScan)), splitInline]
      rfl
    · have hNone : splitInline false ('"' :: s) = none := by
        refine (passes_quote false).eq_none ?_
        rw [← List.append_nil s]
        exact splitInline_of_unclosed hOpen List.not_mem_nil
      have hKind : scanned.kind = .invalid .unterminatedString := congrArg Scanned.kind hScan
      have hRest : scanned.rest = [] := congrArg Scanned.rest hScan
      have hNotBrace : ¬ Token.closes ⟨scanned.kind, scanned.text, .between p stop⟩ = true := by
        intro hCloses
        rw [Token.closes_iff, hKind] at hCloses
        cases hCloses
      rw [hNone, List.find?_cons_of_neg hNotBrace]
      simp only [later, hRest, lexFrom]
      rfl
    · have hNotBrace : ¬ Token.closes ⟨scanned.kind, scanned.text, .between p stop⟩ = true := by
        rw [Token.closes_iff]
        exact hPassed.1
      rw [List.find?_cons_of_neg hNotBrace, ← ih, ← scan_append c s, hPasses, Option.map_map,
        offset_along]
      congr 1
      funext found
      rw [Function.comp_apply, byteLength_append, Nat.add_assoc]

/-! ## Closing braces in a source -/

/-- The offset of the brace that closes the formula which is opened at an offset. -/
def closingBrace? (source : List Char) (start : Nat) : Option Nat :=
  (splitInline false (dropBytes (start + 1) source)).map fun found =>
    start + 1 + byteLength found.1

/-- The tokens behind the brace at an offset, up to the end of the source. -/
def tokensBehind (source : List Char) (start : Nat) : List Token :=
  (lexRange source (start + 1) (byteLength source)).tokens

/-- The search for the brace that closes the formula opened at an offset agrees with the tokens. -/
structure BraceAgrees (source : List Char) (start : Nat) : Prop where
  /-- It finds the first closing brace among the tokens behind the opening one. -/
  found : ∀ p, closingBrace? source start = some p ↔
    ∃ t, (tokensBehind source start).find? Token.closes = some t ∧ t.span.start = p
  /-- It finds none only if there is none among the tokens. -/
  missing : closingBrace? source start = none ↔
    ∀ t ∈ tokensBehind source start, t.kind ≠ .sign .rightBrace
  /-- What stands before the brace is read as the tokens of that range. -/
  read : ∀ p, closingBrace? source start = some p →
    parseBraced (positionAt source start) (slice source (start + 1) p) =
      (parseExpression (lexRange source (start + 1) p)).map
        (.inline (.within source start (p + 1)))
  /-- These tokens hold no closing brace, and all of their string literals are closed. -/
  inside : ∀ p, closingBrace? source start = some p →
    ∀ t ∈ (lexRange source (start + 1) p).tokens,
      t.kind ≠ .sign .rightBrace ∧ t.kind ≠ .invalid .unterminatedString

variable (before rest : List Char)

theorem byteLength_brace : byteLength (before ++ ['\x7b']) = byteLength before + 1 := by
  rw [byteLength_append]
  rfl

theorem closingBrace?_eq : closingBrace? (before ++ ['\x7b'] ++ rest) (byteLength before) =
    (splitInline false rest).map fun found => byteLength before + 1 + byteLength found.1 := by
  rw [closingBrace?, ← byteLength_brace, dropBytes_append]

theorem tokensBehind_eq : tokensBehind (before ++ ['\x7b'] ++ rest) (byteLength before) =
    (lexFrom (Position.start.after (before ++ ['\x7b'])) rest).tokens := by
  have hMiddle := lexRange_middle (before ++ ['\x7b']) rest []
  rw [List.append_nil, byteLength_brace] at hMiddle
  rw [tokensBehind, hMiddle]

theorem closingBrace?_eq_find :
    closingBrace? (before ++ ['\x7b'] ++ rest) (byteLength before) =
      ((tokensBehind (before ++ ['\x7b'] ++ rest) (byteLength before)).find? Token.closes).map
        (·.span.start) := by
  rw [closingBrace?_eq, tokensBehind_eq, ← splitInline_eq_find, offset_after_start,
    byteLength_brace]

/-- The tokens before the brace that is found are those of the text that was passed over. -/
theorem exists_inside {p : Nat}
    (h : closingBrace? (before ++ ['\x7b'] ++ rest) (byteLength before) = some p) :
    ∃ inside after, rest = inside ++ '\x7d' :: after ∧ Passes false inside false ∧
      p = byteLength (before ++ ['\x7b'] ++ inside) ∧
      slice (before ++ ['\x7b'] ++ rest) (byteLength before + 1) p = inside ∧
      lexRange (before ++ ['\x7b'] ++ rest) (byteLength before + 1) p =
        lexFrom (Position.start.after (before ++ ['\x7b'])) inside := by
  rw [closingBrace?_eq, Option.map_eq_some_iff] at h
  obtain ⟨⟨inside, after⟩, hFound, rfl⟩ := h
  have hText := splitInline_append hFound
  have hStop : byteLength before + 1 + byteLength inside =
      byteLength (before ++ ['\x7b'] ++ inside) := by
    rw [byteLength_append (before ++ ['\x7b']), byteLength_brace]
  have hSlice := slice_middle (before ++ ['\x7b']) inside ('\x7d' :: after)
  have hRange := lexRange_middle (before ++ ['\x7b']) inside ('\x7d' :: after)
  rw [List.append_assoc _ inside, hText, byteLength_brace] at hSlice hRange
  refine ⟨inside, after, hText.symm, passes_inside hFound, hStop, ?_, ?_⟩
  · rw [hStop, hSlice]
  · rw [hStop, hRange]

/-- The search and the tokens agree behind every opening brace of every source. -/
theorem closingBrace_agrees : BraceAgrees (before ++ '\x7b' :: rest) (byteLength before) := by
  rw [List.append_cons]
  refine ⟨fun p => ?_, ?_, fun p h => ?_, fun p h => ?_⟩
  · rw [closingBrace?_eq_find, Option.map_eq_some_iff]
  · rw [closingBrace?_eq_find, Option.map_eq_none_iff, List.find?_eq_none]
    exact forall₂_congr fun t _ => not_congr Token.closes_iff
  · obtain ⟨inside, after, rfl, -, hStop, hSlice, hRange⟩ := exists_inside before rest h
    have hNext : Position.start.after (before ++ ['\x7b']) =
        (Position.start.after before).next '\x7b' := by
      rw [Position.after, List.foldl_append]
      rfl
    have hEnd : ((Position.start.after before).after ('\x7b' :: inside ++ ['\x7d'])).offset =
        p + 1 := by
      have hText : before ++ ('\x7b' :: inside ++ ['\x7d']) =
          before ++ ['\x7b'] ++ inside ++ ['\x7d'] := by simp
      rw [offset_after, offset_after_start, ← byteLength_append, hText, byteLength_append, ← hStop]
      rfl
    rw [hSlice, hRange, hNext, parseBraced, List.append_assoc, positionAt_append]
    rw [Span.between, Span.within, positionAt_append, hEnd, offset_after_start]
  · obtain ⟨inside, after, -, hPasses, -, -, hRange⟩ := exists_inside before rest h
    rw [hRange]
    exact (passes_iff _ inside).mp hPasses

/-- The brace in the string literal stands behind an escaped quotation mark. -/
example : closingBrace? "a \x7bf(\"\\\"\x7d\")\x7d b".toList 2 = some 11 := by decide

end FormulaOutline.Formula
