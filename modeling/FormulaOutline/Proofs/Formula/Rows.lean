import FormulaOutline.Proofs.Formula.Slices

/-!
# Rows of tokens

Where two keys touch, the first one is a number and the second one a word, for each token takes up
all that it can. So keys that are joined to a name, with single spaces for the blanks between them,
are read again from the name.

* `Token.Meets`: which keys touch.
* `Row`: tokens that can stand in a row, `row_lexFrom`: those of a text can.
* `Row.kinds_joinTokens`: joined keys are read again.
* `Row.isArgumentName`: they are the name of an argument.
* `Row.isSpaced`: identifiers in a row are the name of a node.
-/

namespace FormulaOutline.Formula

open Text

/-! ## Tokens that touch -/

/-- Where two keys touch, the first one is a number and the second one a word. -/
def Token.Meets (t u : Token) : Prop :=
  isKeyToken t = true → isKeyToken u = true → t.span.stop = u.span.start →
    (∃ x, t.kind = .number x) ∧ ∃ n, u.kind = .identifier n

theorem head_dropWhile {p : Char → Bool} (s : List Char) :
    ∀ c ∈ (s.dropWhile p).head?, p c = false := by
  intro c hc
  have hHead := List.head?_dropWhile_not p s
  rw [hc] at hHead
  simpa using hHead

theorem head_scanNumber (s : List Char) : ∀ c ∈ (scanNumber s).rest.head?, c.isDigit = false := by
  by_cases h : HasFraction (s.dropWhile Char.isDigit)
  · obtain ⟨d, after, hText, hDigit⟩ := h
    rw [scanNumber_of_fraction hDigit hText]
    exact head_dropWhile (d :: after)
  · rw [scanNumber_of_whole h]
    exact head_dropWhile s

theorem Token.Shaped.head {t : Token} (h : t.Shaped) (hKey : isKeyToken t = true) :
    ∃ c s, t.text = c :: s ∧ continuesIdentifier c = true ∧
      (c.isDigit = false → ∃ n, t.kind = .identifier n) := by
  rcases h.key_cases hKey with ⟨hKind, hWord⟩ | ⟨x, -, hSpells⟩
  · obtain ⟨c, s, hText⟩ := List.exists_cons_of_ne_nil (h.isSolid hKey).1
    refine ⟨c, s, hText, continues_of_isWord hWord c ?_, fun _ => ⟨_, hKind⟩⟩
    rw [hText]
    exact List.mem_cons_self
  · obtain ⟨c, s, hText, hDigit⟩ := exists_digit_of_spells hSpells
    refine ⟨c, s, hText, continuesIdentifier_of_isDigit hDigit, fun hNone => ?_⟩
    rw [hDigit] at hNone
    cases hNone

/-- A key does not touch a key before it that could have taken it up. -/
theorem meets_scan {c : Char} {s after : List Char} {span : Span} {u : Token} (hShaped : u.Shaped)
    (hAfter : (scan c s).rest = u.text ++ after) :
    Token.Meets ⟨(scan c s).kind, (scan c s).text, span⟩ u := by
  intro hKey hNext _
  obtain ⟨d, w, hText, hContinues, hWord⟩ := hShaped.head hNext
  have hHead : (scan c s).rest.head? = some d := by
    rw [hAfter, hText]
    rfl
  rcases scan_of_isKeyToken hKey with ⟨hDigit, hScan⟩ | ⟨hStart, hScan⟩
  · rw [hScan] at hHead ⊢
    obtain ⟨x, hKind, -⟩ := spells_scanNumber s hDigit
    exact ⟨⟨x, hKind⟩, hWord (head_scanNumber _ d hHead)⟩
  · rw [hScan, scanIdentifier] at hHead
    have hStop := head_dropWhile (p := continuesIdentifier) _ d hHead
    rw [hContinues] at hStop
    cases hStop

theorem meets_lexFrom (p : Position) (s : List Char) :
    (lexFrom p s).tokens.IsChain Token.Meets := by
  fun_induction lexFrom p s with
  | case1 => exact List.IsChain.nil
  | case2 p c s hSeparator ih => exact ih
  | case3 p c s hSeparator scanned stop later ih =>
    refine List.isChain_cons.mpr ⟨fun u hHead hKey hNext hTouch => ?_, ih⟩
    have hPlaced := lexFrom_placed stop scanned.rest
    have hShaped := shaped_lexFrom stop scanned.rest
    obtain ⟨us, hTokens⟩ := List.head?_eq_some_iff.mp hHead
    change (lexFrom stop scanned.rest).tokens = u :: us at hTokens
    rw [hTokens] at hPlaced hShaped
    generalize hRest : scanned.rest = rest at hPlaced
    cases hPlaced with
    | @token _ gap _ _ after hGap hStart hStop hSolid hMore =>
      -- The tokens touch, so there is no gap between them.
      have hGone : gap = [] := by
        by_contra hSome
        have hPos := byteLength_pos hSome
        change stop.offset = u.span.start at hTouch
        omega
      rw [hGone] at hRest
      exact meets_scan (hShaped u List.mem_cons_self) hRest hKey hNext hTouch

/-! ## Rows -/

/-- Tokens that can stand in a row in a text. -/
structure Row (ts : List Token) : Prop where
  shaped : ∀ t ∈ ts, t.Shaped
  meets : ts.IsChain Token.Meets

theorem row_lexFrom (p : Position) (s : List Char) : Row (lexFrom p s).tokens :=
  ⟨shaped_lexFrom p s, meets_lexFrom p s⟩

theorem Row.infix {us ts : List Token} (h : Row ts) (hInfix : us <:+: ts) : Row us :=
  ⟨fun t ht => h.shaped t (hInfix.subset ht), h.meets.infix hInfix⟩

theorem Row.left {us ts : List Token} (h : Row (us ++ ts)) : Row us :=
  h.infix (List.prefix_append us ts).isInfix

theorem Row.right {us ts : List Token} (h : Row (us ++ ts)) : Row ts :=
  h.infix (List.suffix_append us ts).isInfix

theorem Row.tail {t : Token} {ts : List Token} (h : Row (t :: ts)) : Row ts :=
  h.infix (List.suffix_cons t ts).isInfix

/-! ## Names of nodes -/

/-- Identifiers in a row are the name of a node. -/
theorem Row.isSpaced {ts : List Token} (h : Row ts) (hSome : ts ≠ [])
    (hAll : ∀ t ∈ ts, t.identifier?.isSome = true) :
    IsSpaced (isWord · = true) (" ".intercalate (ts.filterMap Token.identifier?)).toList := by
  refine ⟨(ts.filterMap Token.identifier?).map String.toList, ?_, ?_, ?_⟩
  · obtain ⟨t, ts, rfl⟩ := List.exists_cons_of_ne_nil hSome
    obtain ⟨n, hName⟩ := Option.isSome_iff_exists.mp (hAll t List.mem_cons_self)
    rw [List.filterMap_cons_some hName]
    exact List.cons_ne_nil _ _
  · intro w hw
    obtain ⟨n, hn, rfl⟩ := List.mem_map.mp hw
    obtain ⟨t, ht, hName⟩ := List.mem_filterMap.mp hn
    obtain ⟨hWord, rfl⟩ := (h.shaped t ht).identifier n (Token.identifier?_eq_some_iff.mp hName)
    rwa [String.toList_ofList]
  · rw [String.toList_intercalate]
    rfl

/-! ## Names of arguments -/

theorem isSpaced_singleton {w : List Char} (h : IsChunk w) : IsSpaced IsChunk w :=
  ⟨[w], List.cons_ne_nil _ _, by simpa using h, by simp⟩

/-- A word that touches the first one makes it longer. -/
theorem IsSpaced.touching {w s : List Char} (hWord : ∀ c ∈ w, isSeparator c = false)
    (h : IsSpaced IsChunk s) : IsSpaced IsChunk (w ++ s) := by
  obtain ⟨words, hSome, hWords, rfl⟩ := h
  obtain ⟨v, vs, rfl⟩ := List.exists_cons_of_ne_nil hSome
  rw [List.forall_mem_cons] at hWords
  refine ⟨(w ++ v) :: vs, List.cons_ne_nil _ _, ?_, ?_⟩
  · rw [List.forall_mem_cons]
    refine ⟨⟨by simp [hWords.1.1], ?_⟩, hWords.2⟩
    rw [List.forall_mem_append]
    exact ⟨hWord, hWords.1.2⟩
  · cases vs with
    | nil => simp
    | cons v' vs => simp [List.intercalate_cons_cons]

theorem IsSpaced.apart {w s : List Char} (hWord : IsChunk w) (h : IsSpaced IsChunk s) :
    IsSpaced IsChunk (w ++ ' ' :: s) := by
  obtain ⟨words, hSome, hWords, rfl⟩ := h
  obtain ⟨v, vs, rfl⟩ := List.exists_cons_of_ne_nil hSome
  refine ⟨w :: v :: vs, List.cons_ne_nil _ _, ?_, ?_⟩
  · rw [List.forall_mem_cons]
    exact ⟨hWord, hWords⟩
  · rw [List.intercalate_cons_cons, List.append_assoc, List.singleton_append]

theorem exists_joinTokens (t : Token) (ts : List Token) : ∃ s, joinTokens t ts = t.text ++ s := by
  cases ts with
  | nil => exact ⟨[], (List.append_nil _).symm⟩
  | cons u us =>
    rw [joinTokens]
    split
    · exact ⟨_, rfl⟩
    · exact ⟨_, rfl⟩

/-- A word starts with no digit and with no point. -/
theorem starts_of_isWord {w : List Char} (h : isWord w = true) (s : List Char) :
    (∀ c ∈ (w ++ s).head?, c.isDigit = false) ∧ ¬ HasFraction (w ++ s) := by
  obtain ⟨c, cs, rfl⟩ : ∃ c cs, w = c :: cs :=
    List.exists_cons_of_ne_nil fun hNone => by rw [hNone] at h; cases h
  rw [isWord, Bool.and_eq_true] at h
  constructor
  · rintro d ⟨⟩
    rw [← Bool.not_eq_true]
    intro hDigit
    rw [startsIdentifier_of_isDigit hDigit] at h
    cases h.1
  · rintro ⟨d, after, hFraction, -⟩
    obtain rfl := (List.cons.inj hFraction).1
    exact absurd h.1 (by decide)

section Keys

variable {first : Token} {more : List Token} (h : Row (first :: more))
  (hKeys : ∀ t ∈ first :: more, isKeyToken t = true)
include h hKeys

/-- Keys that are joined are words with single spaces between them. -/
theorem Row.isSpaced_joinTokens : IsSpaced IsChunk (joinTokens first more) := by
  induction more generalizing first with
  | nil =>
    rw [joinTokens]
    exact isSpaced_singleton
      ((h.shaped first List.mem_cons_self).isSolid (hKeys first List.mem_cons_self)).isChunk
  | cons next more ih =>
    have hChunk :=
      ((h.shaped first List.mem_cons_self).isSolid (hKeys first List.mem_cons_self)).isChunk
    have hMore := ih h.tail fun t ht => hKeys t (List.mem_cons_of_mem _ ht)
    rw [joinTokens]
    split
    · exact hMore.touching hChunk.2
    · exact hMore.apart hChunk

/-- Keys that are joined are read again. -/
theorem Row.kinds_joinTokens (p : Position) :
    (lexFrom p (joinTokens first more)).tokens.map Token.kind =
      (first :: more).map Token.kind := by
  induction more generalizing first p with
  | nil =>
    have hToken := (h.shaped first List.mem_cons_self).isToken (hKeys first List.mem_cons_self)
    rw [joinTokens, lexFrom_of_isToken p hToken]
    rfl
  | cons next more ih =>
    have hFirst := h.shaped first List.mem_cons_self
    have hKey := hKeys first List.mem_cons_self
    rw [List.forall_mem_cons] at hKeys
    have hMore := ih h.tail hKeys.2
    by_cases hTouch : first.span.stop = next.span.start
    · have hMeets := (List.isChain_cons_cons.mp h.meets).1
      obtain ⟨⟨x, hNumber⟩, n, hIdentifier⟩ :=
        hMeets hKey (hKeys.2 next List.mem_cons_self) hTouch
      obtain ⟨hWord, -⟩ := (h.tail.shaped next List.mem_cons_self).identifier n hIdentifier
      obtain ⟨rest, hRest⟩ := exists_joinTokens next more
      obtain ⟨hDigit, hPoint⟩ := starts_of_isWord hWord rest
      rw [← hRest] at hDigit hPoint
      rw [joinTokens_adjacent more hTouch,
        lexFrom_number p (hFirst.number x hNumber) hDigit hPoint, List.map_cons, hMore, ← hNumber]
      rfl
    · have hToken := lexFrom_of_isToken p (hFirst.isToken hKey)
      have hValid : ∀ t ∈ (lexFrom p first.text).tokens, t.invalid? = none := by
        rw [hToken, List.forall_mem_singleton]
        exact (Token.proper_of_key hKey).1
      rw [joinTokens_apart more hTouch, lexFrom_append hValid (separates_space _), hToken,
        lexFrom_separator _ _ (by decide), List.map_append, hMore]
      rfl

/-- Keys in a row are the name of an argument. -/
theorem Row.isArgumentName : IsArgumentName (String.ofList (joinTokens first more)) := by
  constructor
  · rw [String.toList_ofList]
    exact h.isSpaced_joinTokens hKeys
  · rw [String.toList_ofList]
    exact isKeyToken_of_kind (h.kinds_joinTokens hKeys .start) hKeys

end Keys

end FormulaOutline.Formula
