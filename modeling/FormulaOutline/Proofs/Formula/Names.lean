import FormulaOutline.Formula.Printer
import FormulaOutline.Proofs.Formula.Lexing
import FormulaOutline.Proofs.Number.Text
import FormulaOutline.Text.Line
import Mathlib

/-!
# Single tokens, and names of several words

The texts in which literals, references and identifiers are written are read as one token each.

The words of a text do not depend on the blanks between them, and joined by single spaces they are
the words of what they are joined to. Names are words with one space between them. What stands between
two tokens of a name is told from their places alone.

* `IsToken`: a text that is one token, `lexFrom_of_isToken`: the tokens of such a text.
* `isToken_string`, `isToken_number`, `isToken_reference`, `isToken_word`: the literals.
* `IsSolid`: a piece of a word, `isSolid_of_mem_words`: words are solid.
* `words_eq_nil_iff`: the texts without words.
* `joinWords_append`, `joinWords_gap`: joined words of texts that are put together.
* `words_joinWords`: joining the words of a text keeps them.
* `IsSpaced`: words with single spaces between them.
* `derives_name`: such words are read as one name.
* `joinTokens_lexFrom`: the tokens of such a text, joined again, give the text.
* `IsArgumentName`: the names that arguments can have; `exists_keys` are their tokens.
-/

namespace FormulaOutline.Formula

open Text

/-! ## One token -/

/-- The text is one token of the kind. -/
def IsToken (text : List Char) (kind : TokenKind) : Prop :=
  ∃ c s, text = c :: s ∧ isSeparator c = false ∧ scan c s = ⟨kind, text, []⟩

theorem lexFrom_of_isToken (p : Position) {text : List Char} {kind : TokenKind}
    (h : IsToken text kind) :
    lexFrom p text = ⟨[⟨kind, text, .between p (p.along text)⟩], p.along text⟩ := by
  obtain ⟨c, s, rfl, hSeparator, hScan⟩ := h
  rw [lexFrom_token p hSeparator hScan, lexFrom]

theorem scan_sign (s : Sign) (rest : List Char) : scan s.char rest = ⟨.sign s, [s.char], rest⟩ := by
  rw [scan, ofChar?_char]

theorem isSeparator_sign (s : Sign) : isSeparator s.char = false := by
  cases s <;> decide

/-- A sign is a token, whatever follows it. -/
theorem lexFrom_sign (p : Position) (s : Sign) (rest : List Char) :
    lexFrom p (s.char :: rest) =
      ⟨⟨.sign s, [s.char], .between p (p.along [s.char])⟩ ::
        (lexFrom (p.along [s.char]) rest).tokens, (lexFrom (p.along [s.char]) rest).stop⟩ :=
  lexFrom_token p (isSeparator_sign s) (scan_sign s rest)

/-! ## Identifiers -/

/-- An identifier: a letter or an underscore, then letters, digits and underscores. -/
def isWord : List Char → Bool
  | [] => false
  | c :: rest => startsIdentifier c && rest.all continuesIdentifier

theorem continues_of_isWord {w : List Char} (h : isWord w = true) :
    ∀ c ∈ w, continuesIdentifier c = true := by
  cases w with
  | nil => cases h
  | cons c rest =>
    rw [isWord, Bool.and_eq_true, List.all_eq_true] at h
    rw [List.forall_mem_cons]
    exact ⟨continuesIdentifier_of_starts h.1, h.2⟩

theorem isToken_word {w : List Char} (h : isWord w = true) :
    IsToken w (.identifier (String.ofList w)) := by
  have hAll := continues_of_isWord h
  cases w with
  | nil => cases h
  | cons c rest =>
    rw [isWord, Bool.and_eq_true] at h
    refine ⟨c, rest, rfl, isSeparator_of_continues (continuesIdentifier_of_starts h.1), ?_⟩
    rw [scan_of_starts rest h.1, scanIdentifier]
    rw [List.takeWhile_eq_self_iff.2 hAll, List.dropWhile_eq_nil_iff.2 hAll]

/-! ## References -/

theorem isToken_reference {i : NodeId} (h : isTranscludable i = true) :
    IsToken ('#' :: '[' :: i.toList ++ [']']) (.reference i) := by
  rw [isTranscludable, Bool.and_eq_true, List.all_eq_true] at h
  have hSome : i.toList ≠ [] := by simpa using h.1
  have hStop : ∀ c ∈ [']'].head?, isIdChar c = false := by
    intro c hc
    cases hc
    decide
  refine ⟨'#', '[' :: (i.toList ++ [']']), rfl, by decide, ?_⟩
  have hSign : Sign.ofChar? '#' = none := by decide
  rw [scan, hSign]
  dsimp only
  rw [if_pos rfl, scanReference, takeWhile_append_rest (Or.inr hStop),
    dropWhile_append_rest (Or.inr hStop), List.takeWhile_eq_self_iff.2 h.2,
    List.dropWhile_eq_nil_iff.2 h.2]
  simp [hSome]

/-! ## Strings -/

/-- A character of a string is read as it was written. -/
theorem scanString_escapeChar (c : Char) (s : List Char) :
    scanString (escapeChar c ++ s) =
      ((scanString s).1.map (c :: ·), escapeChar c ++ (scanString s).2.1, (scanString s).2.2) := by
  by_cases hBackslash : c = '\\'
  · subst hBackslash
    simp [escapeChar, scanString]
  by_cases hQuote : c = '"'
  · subst hQuote
    simp [escapeChar, scanString]
  by_cases hNewline : c = '\n'
  · subst hNewline
    simp [escapeChar, scanString]
  by_cases hTab : c = '\t'
  · subst hTab
    simp [escapeChar, scanString]
  have hPlain : escapeChar c = [c] := by
    rw [escapeChar] <;> assumption
  rw [hPlain]
  exact scanString_plain hQuote fun h => absurd h hBackslash

theorem scanString_escape (v rest : List Char) :
    scanString (escape v ++ '"' :: rest) = (some v, escape v ++ ['"'], rest) := by
  induction v with
  | nil => rfl
  | cons c v ih =>
    have hWritten : escape (c :: v) = escapeChar c ++ escape v := List.flatMap_cons
    rw [hWritten, List.append_assoc, scanString_escapeChar, ih, List.append_assoc]
    rfl

theorem isToken_string (v : String) : IsToken ('"' :: escape v.toList ++ ['"']) (.string v) := by
  refine ⟨'"', escape v.toList ++ ['"'], rfl, by decide, ?_⟩
  have hSign : Sign.ofChar? '"' = none := by decide
  rw [scan, hSign]
  dsimp only
  rw [if_neg (by decide), if_pos rfl, scanString_escape]
  simp

/-! ## Numbers -/

theorem scanNumber_decimalText {whole fraction : List Char} (hWhole : ∀ c ∈ whole, c.isDigit = true)
    (hFraction : ∀ c ∈ fraction, c.isDigit = true) :
    scanNumber (Number.decimalText whole fraction) =
      ⟨.number (Number.ofDecimal false (Number.ofDigits (whole ++ fraction)) (-fraction.length)),
        Number.decimalText whole fraction, []⟩ := by
  rw [Number.decimalText]
  cases fraction with
  | nil =>
    have hTake := List.takeWhile_eq_self_iff.2 hWhole
    have hDrop := List.dropWhile_eq_nil_iff.2 hWhole
    rw [if_pos rfl, List.append_nil, scanNumber_of_whole, hTake, hDrop]
    · rfl
    · rw [hDrop]
      rintro ⟨d, after, hText, -⟩
      cases hText
  | cons d fraction =>
    have hPoint : ∀ c ∈ ('.' :: d :: fraction).head?, c.isDigit = false := by
      intro c hc
      cases hc
      decide
    have hDrop : (whole ++ '.' :: d :: fraction).dropWhile Char.isDigit = '.' :: d :: fraction := by
      rw [dropWhile_append_rest (Or.inr hPoint), List.dropWhile_eq_nil_iff.2 hWhole]
      rfl
    rw [if_neg (by simp), scanNumber_of_fraction (hFraction d List.mem_cons_self) hDrop,
      takeWhile_append_rest (Or.inr hPoint), List.takeWhile_eq_self_iff.2 hWhole,
      List.takeWhile_eq_self_iff.2 hFraction, List.dropWhile_eq_nil_iff.2 hFraction]

theorem scanNumber_of_spells {text : List Char} {x : Float} (h : Number.Spells text x) :
    scanNumber text = ⟨.number x, text, []⟩ := by
  obtain ⟨whole, fraction, rfl, -, hWhole, hFraction, hValue⟩ := h
  rw [scanNumber_decimalText hWhole hFraction, hValue]

theorem exists_digit_of_spells {text : List Char} {x : Float} (h : Number.Spells text x) :
    ∃ c s, text = c :: s ∧ c.isDigit = true := by
  obtain ⟨whole, fraction, hText, hSome, hWhole, hFraction, -⟩ := h
  exact Number.Numeral.exists_cons ⟨hText, hSome, hWhole, hFraction⟩

theorem isToken_number {text : List Char} {x : Float} (h : Number.Spells text x) :
    IsToken text (.number x) := by
  have hScan := scanNumber_of_spells h
  obtain ⟨c, s, rfl, hDigit⟩ := exists_digit_of_spells h
  refine ⟨c, s, rfl, isSeparator_of_continues (continuesIdentifier_of_isDigit hDigit), ?_⟩
  rw [scan_of_isDigit s hDigit, hScan]

/-- A number before a text that goes on with neither digits nor a fraction. -/
theorem lexFrom_number (p : Position) {text rest : List Char} {x : Float}
    (h : Number.Spells text x) (hDigit : ∀ c ∈ rest.head?, c.isDigit = false)
    (hPoint : ¬ HasFraction rest) :
    lexFrom p (text ++ rest) =
      ⟨⟨.number x, text, .between p (p.along text)⟩ :: (lexFrom (p.along text) rest).tokens,
        (lexFrom (p.along text) rest).stop⟩ := by
  have hScan := scanNumber_append_rest text hDigit hPoint
  rw [scanNumber_of_spells h] at hScan
  obtain ⟨c, s, rfl, hFirst⟩ := exists_digit_of_spells h
  refine lexFrom_token p (isSeparator_of_continues (continuesIdentifier_of_isDigit hFirst)) ?_
  rw [scan_of_isDigit _ hFirst]
  exact hScan

/-! ## Words -/

/-- A piece of a word: some characters, none of which is blank. -/
def IsSolid (w : List Char) : Prop := w ≠ [] ∧ ∀ c ∈ w, isBlank c = false

/-- The text starts with a word. -/
def StartsWord (s : List Char) : Prop := ∃ c ∈ s.head?, isBlank c = false

theorem IsSolid.startsWord {w : List Char} (h : IsSolid w) (s : List Char) :
    StartsWord (w ++ s) := by
  obtain ⟨c, w, rfl⟩ := List.exists_cons_of_ne_nil h.1
  exact ⟨c, rfl, h.2 c List.mem_cons_self⟩

theorem words_of_solid {w : List Char} (h : IsSolid w) : words w = [w] := by
  rw [words, List.splitOnP_eq_singleton h.2]
  simp [h.1]

theorem words_cons_blank {c : Char} (s : List Char) (h : isBlank c = true) :
    words (c :: s) = words s := by
  rw [words, List.splitOnP_cons_eq_if_modifyHead, if_pos h]
  rfl

theorem words_append_blanks {gap : List Char} (s : List Char) (h : ∀ c ∈ gap, isBlank c = true) :
    words (gap ++ s) = words s := by
  induction gap with
  | nil => rfl
  | cons c gap ih =>
    rw [List.forall_mem_cons] at h
    rw [List.cons_append, words_cons_blank _ h.1, ih h.2]

theorem words_before_blanks {gap : List Char} (s : List Char) (h : ∀ c ∈ gap, isBlank c = true) :
    words (s ++ gap) = words s := by
  cases gap with
  | nil => rw [List.append_nil]
  | cons c gap =>
    rw [List.forall_mem_cons] at h
    have hNone : words (gap ++ []) = [] := words_append_blanks [] h.2
    rw [List.append_nil, words] at hNone
    rw [words, List.splitOnP_append_cons s gap h.1, List.filter_append, hNone, List.append_nil, words]

theorem words_solid_blank {w : List Char} {c : Char} (s : List Char) (h : IsSolid w)
    (hBlank : isBlank c = true) : words (w ++ c :: s) = w :: words s := by
  rw [words, List.splitOnP_append_cons_of_forall_mem h.2 c hBlank]
  simp [h.1, words]

theorem words_solid_append {w s : List Char} (h : ∀ c ∈ w, isBlank c = false)
    (hStart : StartsWord s) :
    ∃ v vs, words s = v :: vs ∧ words (w ++ s) = (w ++ v) :: vs := by
  obtain ⟨c, hHead, hSolid⟩ := hStart
  cases s with
  | nil => cases hHead
  | cons c' s =>
    cases hHead
    obtain ⟨v, vs, hSplit⟩ := List.exists_cons_of_ne_nil (List.splitOnP_ne_nil isBlank s)
    have hCons : (c :: s).splitOnP isBlank = (c :: v) :: vs := by
      rw [List.splitOnP_cons_eq_if_modifyHead, if_neg (by simp [hSolid]), hSplit]
      rfl
    have hAppend : (w ++ c :: s).splitOnP isBlank = (w ++ c :: v) :: vs := by
      clear hSplit
      induction w with
      | nil => exact hCons
      | cons d w ih =>
        rw [List.forall_mem_cons] at h
        rw [List.cons_append, List.splitOnP_cons_eq_if_modifyHead, if_neg (by simp [h.1]), ih h.2]
        rfl
    exact ⟨c :: v, vs.filter (!·.isEmpty), by rw [words, hCons]; simp, by
      rw [words, hAppend]; simp⟩

/-- The texts without words. -/
theorem words_eq_nil_iff {s : List Char} : words s = [] ↔ isBlankText s = true := by
  induction s with
  | nil => exact iff_of_true rfl rfl
  | cons c s ih =>
    rw [isBlankText, List.all_cons, Bool.and_eq_true]
    by_cases hBlank : isBlank c = true
    · rw [words_cons_blank s hBlank, ih, isBlankText]
      exact ⟨fun h => ⟨hBlank, h⟩, And.right⟩
    · refine iff_of_false (fun hNone => ?_) fun h => hBlank h.1
      obtain ⟨v, vs, hSplit⟩ := List.exists_cons_of_ne_nil (List.splitOnP_ne_nil isBlank s)
      rw [words, List.splitOnP_cons_eq_if_modifyHead, if_neg hBlank, hSplit] at hNone
      simp at hNone

/-- Words are solid, and made of the characters of the text. -/
theorem isSolid_of_mem_words {s w : List Char} (h : w ∈ words s) : IsSolid w ∧ w ⊆ s := by
  have hPieces : ∀ (s : List Char), ∀ w ∈ s.splitOnP isBlank,
      (∀ c ∈ w, isBlank c = false) ∧ w ⊆ s := by
    intro s
    induction s with
    | nil => simp
    | cons c s ih =>
      intro w hw
      rw [List.splitOnP_cons_eq_if_modifyHead] at hw
      split at hw
      · rcases List.mem_cons.mp hw with rfl | hw
        · simp
        · exact ⟨(ih w hw).1, fun d hd => List.mem_cons_of_mem _ ((ih w hw).2 hd)⟩
      · rename_i hSolid
        obtain ⟨v, vs, hSplit⟩ := List.exists_cons_of_ne_nil (List.splitOnP_ne_nil isBlank s)
        rw [hSplit, List.forall_mem_cons] at ih
        rw [hSplit, List.modifyHead_cons] at hw
        rcases List.mem_cons.mp hw with rfl | hw
        · rw [List.forall_mem_cons]
          refine ⟨⟨by simpa using hSolid, ih.1.1⟩, List.cons_subset_cons c ih.1.2⟩
        · exact ⟨(ih.2 w hw).1, fun d hd => List.mem_cons_of_mem _ ((ih.2 w hw).2 hd)⟩
  obtain ⟨hMem, hSome⟩ := List.mem_filter.mp h
  obtain ⟨hSolid, hSubset⟩ := hPieces s w hMem
  exact ⟨⟨by simpa using hSome, hSolid⟩, hSubset⟩

theorem joinWords_of_solid {w : List Char} (h : IsSolid w) : joinWords w = w := by
  rw [joinWords, words_of_solid h, List.intercalate_singleton]

theorem joinWords_append {w s : List Char} (h : ∀ c ∈ w, isBlank c = false)
    (hStart : StartsWord s) : joinWords (w ++ s) = w ++ joinWords s := by
  obtain ⟨v, vs, hWords, hMore⟩ := words_solid_append h hStart
  rw [joinWords, joinWords, hWords, hMore]
  cases vs with
  | nil => simp
  | cons v' vs => simp [List.intercalate_cons_cons]

theorem joinWords_gap {w gap s : List Char} (h : IsSolid w) (hGap : gap ≠ [])
    (hBlank : ∀ c ∈ gap, isBlank c = true) (hStart : StartsWord s) :
    joinWords (w ++ gap ++ s) = w ++ ' ' :: joinWords s := by
  obtain ⟨c, gap, rfl⟩ := List.exists_cons_of_ne_nil hGap
  rw [List.forall_mem_cons] at hBlank
  obtain ⟨v, vs, hWords, -⟩ := words_solid_append (w := []) (by simp) hStart
  rw [joinWords, joinWords, List.append_assoc, List.cons_append, words_solid_blank _ h hBlank.1,
    words_append_blanks _ hBlank.2, hWords, List.intercalate_cons_cons, List.append_assoc,
    List.singleton_append]

/-- Joining the words of a text keeps them. -/
theorem words_joinWords (s : List Char) : words (joinWords s) = words s := by
  have hSolid : ∀ w ∈ words s, IsSolid w := fun w hw => (isSolid_of_mem_words hw).1
  rw [joinWords]
  generalize words s = ws at hSolid
  induction ws with
  | nil => rfl
  | cons w ws ih =>
    rw [List.forall_mem_cons] at hSolid
    cases ws with
    | nil => rw [List.intercalate_singleton, words_of_solid hSolid.1]
    | cons v ws =>
      rw [List.intercalate_cons_cons, List.append_assoc, List.singleton_append,
        words_solid_blank _ hSolid.1 (by decide), ih hSolid.2]

theorem joinWords_joinWords (s : List Char) : joinWords (joinWords s) = joinWords s := by
  rw [joinWords, words_joinWords, joinWords]

theorem mem_joinWords {s : List Char} {c : Char} (h : c ∈ joinWords s) : c = ' ' ∨ c ∈ s := by
  have hSubset : ∀ w ∈ words s, w ⊆ s := fun w hw => (isSolid_of_mem_words hw).2
  rw [joinWords] at h
  generalize words s = ws at h hSubset
  induction ws with
  | nil => cases h
  | cons w ws ih =>
    rw [List.forall_mem_cons] at hSubset
    cases ws with
    | nil =>
      rw [List.intercalate_singleton] at h
      exact .inr (hSubset.1 h)
    | cons v ws =>
      rw [List.intercalate_cons_cons, List.append_assoc, List.singleton_append, List.mem_append,
        List.mem_cons] at h
      rcases h with h | h | h
      · exact .inr (hSubset.1 h)
      · exact .inl h
      · exact ih h hSubset.2

/-! ## Words with single spaces -/

/-- One or more words of a kind with single spaces between them. -/
def IsSpaced (kind : List Char → Prop) (s : List Char) : Prop :=
  ∃ words, words ≠ [] ∧ (∀ w ∈ words, kind w) ∧ s = [' '].intercalate words

/-! ## Names of nodes -/

theorem separates_space (rest : List Char) : Separates (' ' :: rest) :=
  ⟨by decide, fun h => absurd h (by decide)⟩

theorem valid_of_isWord (p : Position) {w : List Char} (h : isWord w = true) :
    ∀ t ∈ (lexFrom p w).tokens, t.invalid? = none := by
  rw [lexFrom_of_isToken p (isToken_word h)]
  simp [Token.invalid?]

/-- Each word is an identifier. -/
theorem lexFrom_words (p : Position) {words : List (List Char)} (hSome : words ≠ [])
    (hWords : ∀ w ∈ words, isWord w = true) :
    (lexFrom p ([' '].intercalate words)).tokens ≠ [] ∧
      (∀ t ∈ (lexFrom p ([' '].intercalate words)).tokens, t.identifier?.isSome = true) ∧
      (lexFrom p ([' '].intercalate words)).tokens.filterMap Token.identifier? =
        words.map String.ofList := by
  induction words generalizing p with
  | nil => exact absurd rfl hSome
  | cons w words ih =>
    rw [List.forall_mem_cons] at hWords
    have hToken := lexFrom_of_isToken p (isToken_word hWords.1)
    cases words with
    | nil =>
      rw [List.intercalate_singleton, hToken]
      simp [Token.identifier?]
    | cons w' words =>
      obtain ⟨-, hAll, hNames⟩ := ih ((p.along w).next ' ') (by simp) hWords.2
      rw [List.intercalate_cons_cons, List.append_assoc, List.singleton_append,
        lexFrom_append (valid_of_isWord p hWords.1) (separates_space _), hToken,
        lexFrom_separator _ _ (by decide)]
      refine ⟨by simp, ?_, ?_⟩
      · rw [List.forall_mem_append]
        exact ⟨by simp [Token.identifier?], hAll⟩
      · rw [List.filterMap_append, hNames]
        simp [Token.identifier?]

/-- Words with single spaces between them are read as one name. -/
theorem derives_name (p : Position) {n : String} (h : IsSpaced (isWord · = true) n.toList) :
    Derives (.primary (.name .none n)) (lexFrom p n.toList).tokens := by
  obtain ⟨words, hSome, hWords, hText⟩ := h
  obtain ⟨hTokens, hAll, hNames⟩ := lexFrom_words p hSome hWords
  rw [← hText] at hTokens hAll hNames
  have hName : " ".intercalate ((lexFrom p n.toList).tokens.filterMap Token.identifier?) = n := by
    rw [hNames, ← String.toList_inj, String.toList_intercalate, hText, List.map_map]
    simp
  have hDerives := Derives.name hTokens hAll
  rwa [hName] at hDerives

/-! ## Spaces between tokens -/

/-- Every separator of the text is a space before some other character. -/
def SingleSpaced : List Char → Prop
  | [] => True
  | c :: s => (isSeparator c = true → c = ' ' ∧ ∃ d ∈ s.head?, isSeparator d = false) ∧
      SingleSpaced s

theorem SingleSpaced.of_append {s t : List Char} (h : SingleSpaced (s ++ t)) : SingleSpaced t := by
  induction s with
  | nil => exact h
  | cons c s ih => exact ih h.2

theorem singleSpaced_append {w s : List Char} (hWord : ∀ c ∈ w, isSeparator c = false)
    (h : SingleSpaced s) : SingleSpaced (w ++ s) := by
  induction w with
  | nil => exact h
  | cons c w ih =>
    rw [List.forall_mem_cons] at hWord
    exact ⟨fun hSeparator => absurd hSeparator (by simp [hWord.1]), ih hWord.2⟩

/-- A word of an argument's name. -/
def IsChunk (w : List Char) : Prop := w ≠ [] ∧ ∀ c ∈ w, isSeparator c = false

theorem singleSpaced_of_isSpaced {s : List Char} (h : IsSpaced IsChunk s) :
    SingleSpaced s ∧ ∃ c ∈ s.head?, isSeparator c = false := by
  obtain ⟨words, hSome, hWords, rfl⟩ := h
  induction words with
  | nil => exact absurd rfl hSome
  | cons w words ih =>
    rw [List.forall_mem_cons] at hWords
    obtain ⟨c, w, rfl⟩ := List.exists_cons_of_ne_nil hWords.1.1
    have hHead := hWords.1.2 c List.mem_cons_self
    cases words with
    | nil =>
      rw [List.intercalate_singleton]
      refine ⟨?_, c, rfl, hHead⟩
      simpa using singleSpaced_append (s := []) hWords.1.2 trivial
    | cons w' words =>
      obtain ⟨hSingle, hStart⟩ := ih (by simp) hWords.2
      rw [List.intercalate_cons_cons, List.append_assoc, List.singleton_append]
      exact ⟨singleSpaced_append hWords.1.2 ⟨fun _ => ⟨rfl, hStart⟩, hSingle⟩, c, rfl, hHead⟩

theorem joinTokens_adjacent {t u : Token} (us : List Token) (h : t.span.stop = u.span.start) :
    joinTokens t (u :: us) = t.text ++ joinTokens u us := by
  rw [joinTokens, if_pos h]

theorem joinTokens_apart {t u : Token} (us : List Token) (h : t.span.stop ≠ u.span.start) :
    joinTokens t (u :: us) = t.text ++ ' ' :: joinTokens u us := by
  rw [joinTokens, if_neg h]

/-- The tokens of a text with single spaces, joined again, give the text. -/
theorem joinTokens_lexFrom (p : Position) {s : List Char} (hSingle : SingleSpaced s)
    (hStart : ∃ c ∈ s.head?, isSeparator c = false) :
    ∃ t ts, (lexFrom p s).tokens = t :: ts ∧ t.span.start = p.offset ∧ joinTokens t ts = s := by
  induction hLength : s.length using Nat.strongRecOn generalizing p s with
  | ind n ih =>
    obtain ⟨c, hHead, hToken⟩ := hStart
    cases s with
    | nil => cases hHead
    | cons c' s =>
      cases hHead
      have hText := scan_append c s
      have hShort := scan_rest_length_le c s
      rw [List.length_cons] at hLength
      rw [lexFrom_cons p s hToken]
      refine ⟨_, _, rfl, rfl, ?_⟩
      generalize scan c s = scanned at *
      have hRest : SingleSpaced scanned.rest := by
        rw [← hText] at hSingle
        exact hSingle.of_append
      match hAfter : scanned.rest with
      | [] =>
        rw [hAfter, List.append_nil] at hText
        unfold lexFrom
        rw [joinTokens, hText]
      | d :: rest =>
        rw [hAfter] at hRest hShort hText
        by_cases hSeparator : isSeparator d = true
        · obtain ⟨rfl, hNext⟩ := hRest.1 hSeparator
          rw [List.length_cons] at hShort
          obtain ⟨t, ts, hTokens, hPlace, hJoin⟩ := ih rest.length (by omega)
            ((p.along scanned.text).next ' ') hRest.2 hNext rfl
          have hApart : (p.along scanned.text).offset ≠ t.span.start := by
            rw [hPlace]
            change _ ≠ (p.along scanned.text).offset + 1
            omega
          rw [lexFrom_separator _ _ hSeparator, hTokens, joinTokens_apart ts hApart, hJoin, hText]
        · obtain ⟨t, ts, hTokens, hPlace, hJoin⟩ := ih (d :: rest).length (by omega)
            (p.along scanned.text) hRest ⟨d, rfl, by simpa using hSeparator⟩ rfl
          rw [hTokens, joinTokens_adjacent ts hPlace.symm, hJoin, hText]

/-! ## Names of arguments -/

/-- The kinds and the texts of tokens do not depend on where the text stands. -/
theorem lexFrom_kinds (p q : Position) (s : List Char) :
    (lexFrom p s).tokens.map Token.kind = (lexFrom q s).tokens.map Token.kind := by
  fun_induction lexFrom p s generalizing q with
  | case1 => rw [lexFrom]
  | case2 p c s hSeparator ih => rw [lexFrom_separator _ _ hSeparator, ih]
  | case3 p c s hSeparator scanned stop later ih =>
    rw [lexFrom_cons q s (by simpa using hSeparator), List.map_cons, List.map_cons,
      ih (q.along (scan c s).text)]

/-- The names that arguments can have: identifiers and numbers, with single spaces. -/
structure IsArgumentName (n : String) : Prop where
  spaced : IsSpaced IsChunk n.toList
  keys : ∀ t ∈ (lex n.toList).tokens, isKeyToken t = true

theorem isKeyToken_of_kind {ts us : List Token} (hSame : ts.map Token.kind = us.map Token.kind)
    (h : ∀ t ∈ us, isKeyToken t = true) : ∀ t ∈ ts, isKeyToken t = true := by
  intro t ht
  have hMem : t.kind ∈ us.map Token.kind := by
    rw [← hSame]
    exact List.mem_map_of_mem ht
  obtain ⟨u, hu, hKind⟩ := List.mem_map.1 hMem
  have hKey := h u hu
  rw [isKeyToken] at hKey ⊢
  rwa [← hKind]

/-- The tokens of an argument's name. -/
theorem IsArgumentName.exists_keys {n : String} (h : IsArgumentName n) (p : Position) :
    ∃ first more, (lexFrom p n.toList).tokens = first :: more ∧
      (∀ t ∈ first :: more, isKeyToken t = true) ∧
      String.ofList (joinTokens first more) = n := by
  obtain ⟨hSingle, hStart⟩ := singleSpaced_of_isSpaced h.spaced
  obtain ⟨first, more, hTokens, -, hJoin⟩ := joinTokens_lexFrom p hSingle hStart
  refine ⟨first, more, hTokens, ?_, ?_⟩
  · rw [← hTokens]
    exact isKeyToken_of_kind (lexFrom_kinds p .start n.toList) h.keys
  · rw [hJoin, String.ofList_toList]

end FormulaOutline.Formula
