import FormulaOutline.Proofs.Formula.Reformatting
import FormulaOutline.Proofs.Formula.Rows

/-!
# Tokens of pieces of a text

A piece of a text that is cut out between two of its tokens has the tokens that stand there, wherever
the piece is read, and these are the phrases that they were.

* `scan_own`: a valid token is read from its own text, with any part of what stands behind it.
* `exists_lexFrom_drop`, `exists_lexFrom_take`: a text from a token on, and up to a token.
* `Token.Alike`: a token and what becomes of it at another place; `Derives.alike` says that these stand
  for the same phrases.
* `exists_piece`: the piece of a text that a row of tokens takes up.
-/

namespace FormulaOutline.Formula

open Text

/-! ## Tokens before less text -/

theorem scanString_own {s v text after : List Char} (h : scanString s = (some v, text, after)) :
    scanString text = (some v, text, []) := by
  fun_induction scanString s generalizing v text after with
  | case1 => cases h
  | case2 r =>
    cases h
    rfl
  | case3 r v' t' a' hScan ih | case4 r v' t' a' hScan ih | case5 r v' t' a' hScan ih
  | case6 r v' t' a' hScan ih =>
    simp only [Prod.mk.injEq, Option.map_eq_some_iff] at h
    obtain ⟨⟨v, rfl, rfl⟩, rfl, rfl⟩ := h
    simp [scanString, ih hScan]
  | case7 c r hQuote hN hT hBackslash hEscaped v' t' a' hScan ih =>
    simp only [Prod.mk.injEq, Option.map_eq_some_iff] at h
    obtain ⟨⟨v, rfl, rfl⟩, rfl, rfl⟩ := h
    have hText := scanString_append r
    rw [hScan] at hText
    rw [scanString_plain hQuote, ih hScan]
    · rfl
    · intro hc d hd hMem
      cases t' with
      | nil => cases hd
      | cons d' t' =>
        cases hd
        simp only [escapedChars, List.mem_cons, List.not_mem_nil, or_false] at hMem
        rw [List.cons_append] at hText
        rcases hMem with rfl | rfl | rfl | rfl
        · exact hN _ hc hText.symm
        · exact hT _ hc hText.symm
        · exact hBackslash _ hc hText.symm
        · exact hEscaped _ hc hText.symm

theorem scanReference_own {s text after : List Char} {kind : TokenKind}
    (h : scanReference s = ⟨kind, '#' :: text, after⟩) (hValid : ∀ cause, kind ≠ .invalid cause) :
    scanReference text = ⟨kind, '#' :: text, []⟩ := by
  unfold scanReference at h
  split at h
  · rename_i r
    split at h
    · rename_i after' hDrop
      have hAll : ∀ c ∈ r.takeWhile isIdChar, isIdChar c = true := fun c hc => List.mem_takeWhile_imp hc
      have hTake : (r.takeWhile isIdChar ++ [']']).takeWhile isIdChar = r.takeWhile isIdChar := by
        rw [List.takeWhile_append_of_pos hAll]
        exact List.append_nil _
      have hDrop' : (r.takeWhile isIdChar ++ [']']).dropWhile isIdChar = [']'] :=
        List.dropWhile_append_of_pos hAll
      cases h
      show scanReference ('[' :: (r.takeWhile isIdChar ++ [']'])) = _
      simp only [scanReference, hTake, hDrop']
      rfl
    · cases h
      exact absurd rfl (hValid _)
    · cases h
      exact absurd rfl (hValid _)
  · cases h
    exact absurd rfl (hValid _)

section Longest

variable {p : Char → Bool} {s b d : List Char}

/-- A part of what stands behind the longest row of some characters does not go on with them. -/
theorem longest_own (hRest : s.dropWhile p = b ++ d) :
    (s.takeWhile p ++ b).takeWhile p = s.takeWhile p ∧ (s.takeWhile p ++ b).dropWhile p = b := by
  have hEnd : ∀ c ∈ b.head?, p c = false := by
    intro c hc
    refine head_dropWhile s c ?_
    rw [hRest, List.head?_append_of_ne_nil]
    · exact hc
    · rintro rfl
      cases hc
  have hAll : ∀ c ∈ s.takeWhile p, p c = true := fun c hc => List.mem_takeWhile_imp hc
  constructor
  · rw [takeWhile_append_rest (.inr hEnd), List.takeWhile_eq_self_iff.2 hAll]
  · rw [dropWhile_append_rest (.inr hEnd), List.dropWhile_eq_nil_iff.2 hAll, List.nil_append]

end Longest

theorem scanIdentifier_own {s b d : List Char} (hRest : (scanIdentifier s).rest = b ++ d) :
    scanIdentifier ((scanIdentifier s).text ++ b) =
      ⟨(scanIdentifier s).kind, (scanIdentifier s).text, b⟩ := by
  obtain ⟨hTake, hDrop⟩ := longest_own (p := continuesIdentifier) hRest
  simp only [scanIdentifier, hTake, hDrop]

theorem scanNumber_own {s b d : List Char} (hRest : (scanNumber s).rest = b ++ d) :
    scanNumber ((scanNumber s).text ++ b) = ⟨(scanNumber s).kind, (scanNumber s).text, b⟩ := by
  have hAll : ∀ c ∈ s.takeWhile Char.isDigit, c.isDigit = true := fun c hc => List.mem_takeWhile_imp hc
  by_cases hFraction : HasFraction (s.dropWhile Char.isDigit)
  · obtain ⟨e, after, hText, hDigit⟩ := hFraction
    rw [scanNumber_of_fraction hDigit hText] at hRest ⊢
    obtain ⟨hTake, hDrop⟩ := longest_own hRest
    rw [List.takeWhile_cons_of_pos hDigit, List.cons_append] at hTake hDrop
    have hWhole : (s.takeWhile Char.isDigit ++ '.' :: (e :: after).takeWhile Char.isDigit ++ b).dropWhile
        Char.isDigit = '.' :: e :: (after.takeWhile Char.isDigit ++ b) := by
      rw [List.append_assoc, List.dropWhile_append_of_pos hAll, List.takeWhile_cons_of_pos hDigit]
      rfl
    have hDigits : (s.takeWhile Char.isDigit ++ '.' :: (e :: after).takeWhile Char.isDigit ++ b).takeWhile
        Char.isDigit = s.takeWhile Char.isDigit := by
      rw [List.append_assoc, List.takeWhile_append_of_pos hAll]
      exact List.append_nil _
    rw [scanNumber_of_fraction hDigit hWhole, hDigits, hTake, hDrop,
      List.takeWhile_cons_of_pos hDigit]
  · rw [scanNumber_of_whole hFraction] at hRest ⊢
    obtain ⟨hTake, hDrop⟩ := longest_own hRest
    have hNone : ¬ HasFraction ((s.takeWhile Char.isDigit ++ b).dropWhile Char.isDigit) := by
      rw [hDrop]
      rintro ⟨e, after, rfl, hDigit⟩
      exact hFraction ⟨e, after ++ d, hRest, hDigit⟩
    rw [scanNumber_of_whole hNone, hTake, hDrop]

/-- A valid token is read from its own text, with any part of what stands behind it. -/
theorem scan_own {c : Char} {s text b d : List Char}
    (hValid : ∀ cause, (scan c s).kind ≠ .invalid cause) (hText : (scan c s).text = c :: text)
    (hRest : (scan c s).rest = b ++ d) :
    scan c (text ++ b) = ⟨(scan c s).kind, c :: text, b⟩ := by
  rcases scan_cases c s with ⟨sign, rfl, hScan⟩ | ⟨rfl, hScan⟩ | ⟨rfl, v, t, after, hString, hScan⟩ |
    ⟨hDigit, hScan⟩ | ⟨hStart, hScan⟩ | ⟨-, t, after, -, hScan⟩ | ⟨-, -, hScan⟩
  · rw [hScan] at hText ⊢
    cases hText
    rw [scan, ofChar?_char]
    rfl
  · rw [hScan] at hText hValid ⊢
    have hScanned : scanReference s =
        ⟨(scanReference s).kind, '#' :: text, (scanReference s).rest⟩ := by rw [← hText]
    have hOwn := scanReference_own hScanned hValid
    have hLonger := scanReference_append_rest (s := text) b (by rw [hOwn]; exact hValid)
    rw [hOwn] at hLonger
    exact hLonger
  · rw [hScan] at hText ⊢
    obtain rfl := (List.cons.inj hText).2
    have hOwn := scanString_append_rest b (scanString_own hString)
    simp only [scan, hOwn]
    rfl
  · rw [hScan] at hText hRest ⊢
    rw [scan_of_isDigit _ hDigit, ← List.cons_append, ← hText]
    exact scanNumber_own hRest
  · rw [hScan] at hText hRest ⊢
    rw [scan_of_starts _ hStart, ← List.cons_append, ← hText]
    exact scanIdentifier_own hRest
  · rw [hScan] at hValid
    exact absurd rfl (hValid _)
  · rw [hScan] at hValid
    exact absurd rfl (hValid _)

/-! ## Cutting between tokens -/

/-- The text from a token on has the tokens from this one on. -/
theorem exists_lexFrom_drop {p : Position} {s : List Char} {us rest : List Token} {t : Token}
    (h : (lexFrom p s).tokens = us ++ t :: rest) :
    ∃ before after q, s = before ++ after ∧ q.offset = p.offset + byteLength before ∧
      q.offset = t.span.start ∧ (lexFrom q after).tokens = t :: rest := by
  induction p, s using lexFrom.induct generalizing us with
  | case1 p => simp [lexFrom] at h
  | case2 p c s hSeparator ih =>
    rw [lexFrom_separator _ _ hSeparator] at h
    obtain ⟨before, after, q, rfl, hOffset, hTokens⟩ := ih h
    refine ⟨c :: before, after, q, rfl, ?_, hTokens⟩
    rw [hOffset, offset_next, byteLength, Nat.add_assoc]
  | case3 p c s hSeparator =>
    rename_i scanned stop ih
    have hTokens := lexFrom_cons p s (by simpa using hSeparator)
    rw [hTokens] at h
    cases us with
    | nil =>
      refine ⟨[], c :: s, p, rfl, rfl, ?_, hTokens ▸ h⟩
      obtain rfl := (List.cons.inj h).1
      rfl
    | cons u us =>
      obtain ⟨before, after, q, hText, hOffset, hTokens⟩ := ih (List.cons.inj h).2
      refine ⟨scanned.text ++ before, after, q, ?_, ?_, hTokens⟩
      · rw [List.append_assoc, ← hText]
        exact (scan_append c s).symm
      · rw [hOffset, offset_along, byteLength_append, Nat.add_assoc]

/-- A text that starts with a token that was read is read as this token and those behind it. -/
theorem lexFrom_own {p : Position} {c : Char} {s b d : List Char} (hToken : isSeparator c = false)
    (hValid : ∀ cause, (scan c s).kind ≠ .invalid cause) (hRest : (scan c s).rest = b ++ d) :
    (lexFrom p ((scan c s).text ++ b)).tokens =
      ⟨(scan c s).kind, (scan c s).text, .between p (p.along (scan c s).text)⟩ ::
        (lexFrom (p.along (scan c s).text) b).tokens := by
  obtain ⟨c', text, hText⟩ := List.exists_cons_of_ne_nil (scan_text_ne_nil c s)
  have hWhole := scan_append c s
  rw [hText, List.cons_append] at hWhole
  obtain rfl := (List.cons.inj hWhole).1
  have hScan := scan_own hValid hText hRest
  rw [hText, List.cons_append, lexFrom_token p hToken hScan]

/-- The text up to the end of a token has the tokens up to this one. -/
theorem exists_lexFrom_take {p : Position} {s : List Char} {us rest : List Token} {t : Token}
    (h : (lexFrom p s).tokens = us ++ t :: rest) (hValid : ∀ u ∈ us ++ [t], u.invalid? = none) :
    ∃ inside after, s = inside ++ after ∧ t.span.stop = p.offset + byteLength inside ∧
      (lexFrom p inside).tokens = us ++ [t] := by
  induction p, s using lexFrom.induct generalizing us with
  | case1 p => simp [lexFrom] at h
  | case2 p c s hSeparator ih =>
    rw [lexFrom_separator _ _ hSeparator] at h
    obtain ⟨inside, after, rfl, hStop, hTokens⟩ := ih h hValid
    refine ⟨c :: inside, after, rfl, ?_, ?_⟩
    · rw [hStop, offset_next, byteLength, Nat.add_assoc]
    · rw [lexFrom_separator _ _ hSeparator, hTokens]
  | case3 p c s hSeparator =>
    rename_i scanned stop ih
    have hToken : isSeparator c = false := by simpa using hSeparator
    rw [lexFrom_cons p s hToken] at h
    have hText : scanned.text ++ scanned.rest = c :: s := scan_append c s
    cases us with
    | nil =>
      obtain ⟨rfl, -⟩ := List.cons.inj h
      have hKind := Token.kind_ne_invalid (hValid _ List.mem_cons_self)
      have hOwn := lexFrom_own (p := p) (b := []) hToken hKind rfl
      refine ⟨scanned.text, scanned.rest, hText.symm, offset_along p scanned.text, ?_⟩
      rw [List.append_nil] at hOwn
      rw [hOwn, lexFrom]
      rfl
    | cons u us =>
      obtain ⟨hHead, hLater⟩ := List.cons.inj h
      rw [List.cons_append, List.forall_mem_cons, ← hHead] at hValid
      obtain ⟨inside, after, hRest, hStop, hTokens⟩ := ih hLater hValid.2
      refine ⟨scanned.text ++ inside, after, ?_, ?_, ?_⟩
      · rw [List.append_assoc, ← hRest, hText]
      · rw [hStop, offset_along, byteLength_append, Nat.add_assoc]
      · rw [lexFrom_own hToken (Token.kind_ne_invalid hValid.1) hRest, hTokens, ← hHead]
        rfl

/-! ## Tokens at other places -/

/-- Two tokens that say the same, and that stand in the same way to two places. -/
structure Token.Alike (m n : Nat) (t u : Token) : Prop where
  kind : t.kind = u.kind
  text : t.text = u.text
  start : t.span.start + n = u.span.start + m
  stop : t.span.stop + n = u.span.stop + m

theorem Token.Alike.of_add {m n k : Nat} {t u : Token} (h : t.Alike (m + k) (n + k) u) :
    t.Alike m n u := by
  obtain ⟨hKind, hText, hStart, hStop⟩ := h
  exact ⟨hKind, hText, by omega, by omega⟩

/-- A text has the same tokens wherever it is read. -/
theorem lexFrom_alike (p q : Position) (s : List Char) :
    List.Forall₂ (Token.Alike p.offset q.offset) (lexFrom p s).tokens (lexFrom q s).tokens := by
  induction p, s using lexFrom.induct generalizing q with
  | case1 p =>
    rw [lexFrom, lexFrom]
    exact .nil
  | case2 p c s hSeparator ih =>
    rw [lexFrom_separator _ _ hSeparator, lexFrom_separator _ _ hSeparator]
    have hMore := ih (q.next c)
    rw [offset_next, offset_next] at hMore
    exact hMore.imp fun _ _ => Token.Alike.of_add
  | case3 p c s hSeparator scanned stop ih =>
    have hToken : isSeparator c = false := by simpa using hSeparator
    rw [lexFrom_cons _ _ hToken, lexFrom_cons _ _ hToken]
    have hMore := ih (q.along scanned.text)
    rw [offset_along, offset_along] at hMore
    refine .cons ⟨rfl, rfl, ?_, ?_⟩ (hMore.imp fun _ _ => Token.Alike.of_add)
    · exact Nat.add_comm _ _
    · simp only [Span.between, offset_along]
      omega

variable {m n : Nat} {ts us : List Token}

/-- Tokens at another place look alike, and blanks stand between the same ones of them. -/
theorem reformats_of_alike (h : List.Forall₂ (Token.Alike m n) ts us) : Reformats ts us := by
  induction h with
  | nil => exact .nil
  | cons hToken hMore ih =>
    refine .cons hToken.kind ?_ ih
    cases hMore with
    | nil => exact fun _ => nofun
    | cons hNext _ =>
      rintro - t' ⟨⟩ u' ⟨⟩
      refine ⟨fun _ => hToken.text, fun _ => ?_⟩
      have := hToken.stop
      have := hNext.start
      omega

/-- Tokens that are alike stand for the same. -/
theorem Derives.alike {p : Phrase} (h : Derives p ts)
    (hAlike : List.Forall₂ (Token.Alike m n) ts us) : Derives p us :=
  h.reformats (reformats_of_alike hAlike)

/-- What is parsed of a text is parsed of it anywhere, up to the spans. -/
theorem parseExpression_elsewhere {p : Position} (q : Position) {s : List Char} {e : Expr}
    (h : parseExpression (lexFrom p s) = .ok e) :
    ∃ e', parseExpression (lexFrom q s) = .ok e' ∧ e'.withoutSpans = e.withoutSpans :=
  parseExpression_of_derives ((derives_of_parseExpression h).alike (lexFrom_alike p q s))

/-! ## Pieces -/

/-- The piece of a text that a row of valid tokens takes up has these tokens, wherever it is read. -/
theorem exists_piece {p : Position} {s : List Char} {before us after : List Token} {first last : Token}
    (h : (lexFrom p s).tokens = before ++ us ++ after) (hFirst : us.head? = some first)
    (hLast : us.getLast? = some last) (hValid : ∀ u ∈ us, u.invalid? = none) :
    ∃ pre text post, s = pre ++ text ++ post ∧
      first.span.start = p.offset + byteLength pre ∧
      last.span.stop = p.offset + byteLength (pre ++ text) ∧
      ∀ q, ∃ k, List.Forall₂ (Token.Alike k q.offset) us (lexFrom q text).tokens := by
  obtain ⟨rest, rfl⟩ : ∃ rest, us = first :: rest := List.head?_eq_some_iff.1 hFirst
  rw [List.append_assoc, List.cons_append] at h
  obtain ⟨pre, tail, p', rfl, hOffset, hStart, hTokens⟩ := exists_lexFrom_drop h
  obtain ⟨front, hFront⟩ := List.getLast?_eq_some_iff.1 hLast
  rw [← List.cons_append, hFront, List.append_assoc] at hTokens
  rw [hFront] at hValid
  obtain ⟨text, post, rfl, hStop, hText⟩ := exists_lexFrom_take hTokens hValid
  refine ⟨pre, text, post, (List.append_assoc _ _ _).symm, hStart ▸ hOffset, ?_, fun q => ?_⟩
  · rw [hStop, hOffset, byteLength_append, Nat.add_assoc]
  · rw [hFront, ← hText]
    exact ⟨p'.offset, lexFrom_alike p' q text⟩

end FormulaOutline.Formula
