import FormulaOutline.Proofs.Formula.Names
import FormulaOutline.Proofs.Formula.Stopping

/-!
# Tokens and their source

A token that was read has a text that tokens of its kind have, so that it is read again from its own
text. Tokens stand one after the other in the text they are read from. The name of an argument is
therefore the piece of the source from its first token to its last one, with its blanks made single
spaces.

* `Token.Shaped`: what the text of a token looks like; `shaped_lexFrom` says that of all tokens.
* `Token.Shaped.isToken`: a key is read again from its text.
* `Token.Shaped.isSolid`: a key has no blanks in it.
* `Placed`: tokens in a text, by the offsets of their spans.
* `lexFrom_placed`: the tokens of a text stand in it.
* `lexRange_middle`: the tokens of a range are those of the text between its ends.
* `Placed.exists_name`: the piece of the text that a row of keys takes up.
* `recognizes_sums`: the parser on the tokens of a range.
-/

namespace FormulaOutline.Formula

open Text

/-! ## Blanks -/

theorem isBlank_of_continues {c : Char} (h : continuesIdentifier c = true) : isBlank c = false :=
  isBlank_eq_false (p := continuesIdentifier) (by decide +kernel) h

theorem isBlank_of_isSeparator {c : Char} (h : isSeparator c = true) : isBlank c = true := by
  simp only [isSeparator, Bool.or_eq_true, beq_iff_eq] at h
  rcases h with ((rfl | rfl) | rfl) | rfl <;> decide

theorem IsSolid.isChunk {w : List Char} (h : IsSolid w) : IsChunk w := by
  refine ⟨h.1, fun c hc => ?_⟩
  rw [← Bool.not_eq_true]
  intro hSeparator
  have hBlank := isBlank_of_isSeparator hSeparator
  rw [h.2 c hc] at hBlank
  cases hBlank

/-! ## Shapes of tokens -/

/-- The token has a text that tokens of its kind have. -/
structure Token.Shaped (t : Token) : Prop where
  identifier : ∀ n, t.kind = .identifier n → isWord t.text = true ∧ n = String.ofList t.text
  number : ∀ x, t.kind = .number x → Number.Spells t.text x
  reference : ∀ i, t.kind = .reference i → isTranscludable i = true

theorem transcludable_scanReference {s : List Char} {i : NodeId}
    (h : (scanReference s).kind = .reference i) : isTranscludable i = true := by
  unfold scanReference at h
  split at h
  · rename_i rest
    split at h
    · dsimp only at h
      split at h
      · cases h
      · rename_i hSome
        cases h
        rw [isTranscludable, String.toList_ofList, Bool.and_eq_true, List.all_eq_true]
        exact ⟨by simpa using hSome, fun c hc => List.mem_takeWhile_imp hc⟩
    · cases h
    · cases h
  · cases h

theorem isKeyToken_scanReference (s text : List Char) (span : Span) :
    isKeyToken ⟨(scanReference s).kind, text, span⟩ = false := by
  unfold scanReference
  split
  · split
    · dsimp only
      split <;> rfl
    · rfl
    · rfl
  · rfl

theorem spells_scanNumber {c : Char} (s : List Char) (h : c.isDigit = true) :
    ∃ x, (scanNumber (c :: s)).kind = .number x ∧ Number.Spells (scanNumber (c :: s)).text x := by
  have hDigits : ∀ t : List Char, ∀ d ∈ t.takeWhile Char.isDigit, d.isDigit = true :=
    fun t d hd => List.mem_takeWhile_imp (p := Char.isDigit) hd
  have hSome : (c :: s).takeWhile Char.isDigit ≠ [] := by
    rw [List.takeWhile_cons_of_pos h]
    exact List.cons_ne_nil _ _
  by_cases hFraction : HasFraction ((c :: s).dropWhile Char.isDigit)
  · obtain ⟨d, after, hText, hDigit⟩ := hFraction
    rw [scanNumber_of_fraction hDigit hText]
    refine ⟨_, rfl, _, (d :: after).takeWhile Char.isDigit, ?_, hSome, hDigits _, hDigits _, rfl⟩
    rw [Number.decimalText, if_neg]
    rw [List.takeWhile_cons_of_pos hDigit]
    exact List.cons_ne_nil _ _
  · rw [scanNumber_of_whole hFraction]
    refine ⟨_, rfl, _, [], ?_, hSome, hDigits _, List.forall_mem_nil _, ?_⟩
    · rw [Number.decimalText, if_pos rfl, List.append_nil]
    · rw [List.append_nil]
      rfl

theorem isWord_scanIdentifier {c : Char} (s : List Char) (h : startsIdentifier c = true) :
    isWord (scanIdentifier (c :: s)).text = true := by
  rw [scanIdentifier, List.takeWhile_cons_of_pos (continuesIdentifier_of_starts h), isWord, h,
    Bool.true_and, List.all_eq_true]
  exact fun d hd => List.mem_takeWhile_imp hd

theorem shaped_scan (c : Char) (s : List Char) (span : Span) :
    Token.Shaped ⟨(scan c s).kind, (scan c s).text, span⟩ := by
  rcases scan_cases c s with ⟨sign, -, hScan⟩ | ⟨-, hScan⟩ | ⟨-, v, text, after, -, hScan⟩ |
    ⟨hDigit, hScan⟩ | ⟨hStart, hScan⟩ | ⟨-, text, after, -, hScan⟩ | ⟨-, -, hScan⟩
  · rw [hScan]
    constructor <;> intro _ hKind <;> cases hKind
  · rw [hScan]
    have hNone := isKeyToken_scanReference s (scanReference s).text span
    rw [isKeyToken] at hNone
    refine ⟨fun n hKind => ?_, fun x hKind => ?_, fun i hKind => transcludable_scanReference hKind⟩
    · rw [hKind] at hNone
      cases hNone
    · rw [hKind] at hNone
      cases hNone
  · rw [hScan]
    constructor <;> intro _ hKind <;> cases hKind
  · rw [hScan]
    obtain ⟨x, hNumber, hSpells⟩ := spells_scanNumber s hDigit
    constructor <;> intro _ hKind <;> dsimp only at hKind <;> rw [hNumber] at hKind <;> cases hKind
    exact hSpells
  · rw [hScan]
    have hWord := isWord_scanIdentifier s hStart
    constructor <;> intro _ hKind <;> cases hKind
    exact ⟨hWord, rfl⟩
  · rw [hScan]
    constructor <;> intro _ hKind <;> cases hKind
  · rw [hScan]
    constructor <;> intro _ hKind <;> cases hKind

theorem shaped_lexFrom (p : Position) (s : List Char) : ∀ t ∈ (lexFrom p s).tokens, t.Shaped := by
  fun_induction lexFrom p s with
  | case1 => simp
  | case2 p c s hSeparator ih => exact ih
  | case3 p c s hSeparator scanned stop later ih =>
    rw [List.forall_mem_cons]
    exact ⟨shaped_scan c s _, ih⟩

/-! ## Keys -/

/-- Keys are read as numbers and identifiers. -/
theorem scan_of_isKeyToken {c : Char} {s : List Char} {span : Span}
    (h : isKeyToken ⟨(scan c s).kind, (scan c s).text, span⟩ = true) :
    (c.isDigit = true ∧ scan c s = scanNumber (c :: s)) ∨
      startsIdentifier c = true ∧ scan c s = scanIdentifier (c :: s) := by
  rcases scan_cases c s with ⟨sign, -, hScan⟩ | ⟨-, hScan⟩ | ⟨-, v, text, after, -, hScan⟩ |
    hNumber | hIdentifier | ⟨-, text, after, -, hScan⟩ | ⟨-, -, hScan⟩
  · rw [hScan] at h
    cases h
  · rw [hScan, isKeyToken_scanReference] at h
    cases h
  · rw [hScan] at h
    cases h
  · exact .inl hNumber
  · exact .inr hIdentifier
  · rw [hScan] at h
    cases h
  · rw [hScan] at h
    cases h

section Keys

variable {t : Token} (h : t.Shaped) (hKey : isKeyToken t = true)
include h hKey

/-- A key is a word or a number. -/
theorem Token.Shaped.key_cases :
    (t.kind = .identifier (String.ofList t.text) ∧ isWord t.text = true) ∨
      ∃ x, t.kind = .number x ∧ Number.Spells t.text x := by
  rw [isKeyToken] at hKey
  split at hKey
  · rename_i n hKind
    obtain ⟨hWord, rfl⟩ := h.identifier n hKind
    exact .inl ⟨hKind, hWord⟩
  · rename_i x hKind
    exact .inr ⟨x, hKind, h.number x hKind⟩
  · cases hKey

theorem Token.Shaped.isToken : IsToken t.text t.kind := by
  rcases h.key_cases hKey with ⟨hKind, hWord⟩ | ⟨x, hKind, hSpells⟩
  · rw [hKind]
    exact isToken_word hWord
  · rw [hKind]
    exact isToken_number hSpells

theorem Token.Shaped.isSolid : IsSolid t.text := by
  rcases h.key_cases hKey with ⟨-, hWord⟩ | ⟨x, -, hSpells⟩
  · refine ⟨?_, fun c hc => isBlank_of_continues (continues_of_isWord hWord c hc)⟩
    intro hNone
    rw [hNone] at hWord
    cases hWord
  · obtain ⟨whole, fraction, hText, hSome, hWhole, hFraction, -⟩ := hSpells
    have hDigit : ∀ c : Char, c.isDigit = true → isBlank c = false :=
      fun c hc => isBlank_of_continues (continuesIdentifier_of_isDigit hc)
    rw [hText, Number.decimalText]
    refine ⟨by simp [hSome], ?_⟩
    rw [List.forall_mem_append]
    refine ⟨fun c hc => hDigit c (hWhole c hc), ?_⟩
    split
    · exact List.forall_mem_nil _
    · rw [List.forall_mem_cons]
      exact ⟨by decide, fun c hc => hDigit c (hFraction c hc)⟩

end Keys

/-! ## Bytes -/

theorem byteLength_append (s t : List Char) : byteLength (s ++ t) = byteLength s + byteLength t := by
  induction s with
  | nil => simp [byteLength]
  | cons c s ih => simp [byteLength, ih, Nat.add_assoc]

theorem byteLength_pos {s : List Char} (h : s ≠ []) : 0 < byteLength s := by
  obtain ⟨c, s, rfl⟩ := List.exists_cons_of_ne_nil h
  have hSize := c.utf8Size_pos
  simp only [byteLength]
  omega

theorem dropBytes_append (s t : List Char) : dropBytes (byteLength s) (s ++ t) = t := by
  induction s with
  | nil => simp [byteLength, dropBytes]
  | cons c s ih =>
    have hSize := c.utf8Size_pos
    obtain ⟨n, hn⟩ : ∃ n, byteLength (c :: s) = n + 1 :=
      Nat.exists_eq_add_one_of_ne_zero (by simp only [byteLength]; omega)
    have hRest : n + 1 - c.utf8Size = byteLength s := by
      rw [← hn, byteLength]
      omega
    rw [hn, List.cons_append, dropBytes, hRest, ih]
    exact Nat.succ_ne_zero n

theorem takeBytes_append (s t : List Char) : takeBytes (byteLength s) (s ++ t) = s := by
  induction s with
  | nil => simp [byteLength, takeBytes]
  | cons c s ih =>
    have hSize := c.utf8Size_pos
    obtain ⟨n, hn⟩ : ∃ n, byteLength (c :: s) = n + 1 :=
      Nat.exists_eq_add_one_of_ne_zero (by simp only [byteLength]; omega)
    have hRest : n + 1 - c.utf8Size = byteLength s := by
      rw [← hn, byteLength]
      omega
    rw [hn, List.cons_append, takeBytes, hRest, ih]
    exact Nat.succ_ne_zero n

theorem slice_middle (before inside after : List Char) :
    slice (before ++ inside ++ after) (byteLength before) (byteLength (before ++ inside)) =
      inside := by
  have hLength : byteLength (before ++ inside) - byteLength before = byteLength inside := by
    rw [byteLength_append]
    omega
  rw [slice, hLength, List.append_assoc, dropBytes_append, takeBytes_append]

theorem offset_next (p : Position) (c : Char) : (p.next c).offset = p.offset + c.utf8Size := by
  rw [Position.next]
  split <;> rfl

theorem offset_along (p : Position) (s : List Char) :
    (p.along s).offset = p.offset + byteLength s := by
  induction s generalizing p with
  | nil => rfl
  | cons c s ih =>
    have hStep := ih (p.advance c)
    simp only [byteLength, Position.advance] at hStep ⊢
    rw [← Nat.add_assoc]
    exact hStep

theorem walk_append (p : Position) (s rest : List Char) :
    Position.walk (p.offset + byteLength s) p (s ++ rest) = p.after s := by
  induction s generalizing p with
  | nil => cases rest <;> simp [Position.walk, Position.after, byteLength]
  | cons c s ih =>
    have hSize := c.utf8Size_pos
    have hOffset : p.offset + byteLength (c :: s) = (p.next c).offset + byteLength s := by
      rw [offset_next, byteLength, Nat.add_assoc]
    have hBefore : ¬ (p.next c).offset + byteLength s ≤ p.offset := by
      rw [offset_next]
      omega
    rw [hOffset, List.cons_append, Position.walk, if_neg hBefore, ih]
    rfl

theorem positionAt_append (s rest : List Char) :
    positionAt (s ++ rest) (byteLength s) = Position.start.after s := by
  have hWalk : Position.walk (0 + byteLength s) .start (s ++ rest) = _ := walk_append .start s rest
  rwa [Nat.zero_add] at hWalk

theorem offset_after (p : Position) (s : List Char) :
    (p.after s).offset = p.offset + byteLength s := by
  induction s generalizing p with
  | nil => rfl
  | cons c s ih =>
    have hStep := ih (p.next c)
    rw [offset_next, Nat.add_assoc] at hStep
    exact hStep

theorem offset_after_start (s : List Char) : (Position.start.after s).offset = byteLength s :=
  (offset_after .start s).trans (Nat.zero_add _)

/-! ## Tokens in a text -/

/-- The tokens stand one after the other in a text that starts at a byte offset, with separators
between them. -/
inductive Placed : Nat → List Token → List Char → Prop
  | done {start s} : Placed start [] s
  | token {start gap t ts s} : (∀ c ∈ gap, isSeparator c = true) →
      t.span.start = start + byteLength gap → t.span.stop = t.span.start + byteLength t.text →
      (isKeyToken t = true → IsSolid t.text) → Placed t.span.stop ts s →
      Placed start (t :: ts) (gap ++ (t.text ++ s))

theorem Placed.skip {c : Char} {start : Nat} {ts : List Token} {s : List Char}
    (h : Placed (start + c.utf8Size) ts s) (hSeparator : isSeparator c = true) :
    Placed start ts (c :: s) := by
  cases h with
  | done => exact .done
  | @token _ gap t ts s hGap hStart hStop hSolid hMore =>
    rw [← List.cons_append]
    refine .token ?_ ?_ hStop hSolid hMore
    · rw [List.forall_mem_cons]
      exact ⟨hSeparator, hGap⟩
    · rw [hStart, byteLength, Nat.add_assoc]

/-- The tokens of a text stand in it. -/
theorem lexFrom_placed (p : Position) (s : List Char) :
    Placed p.offset (lexFrom p s).tokens s := by
  fun_induction lexFrom p s with
  | case1 p => exact .done
  | case2 p c s hSeparator ih =>
    rw [offset_next] at ih
    exact ih.skip hSeparator
  | case3 p c s hSeparator scanned stop later ih =>
    have hToken : Placed p.offset (⟨scanned.kind, scanned.text, .between p stop⟩ :: later.tokens)
        ([] ++ (scanned.text ++ scanned.rest)) :=
      .token (by simp) rfl (offset_along p scanned.text) (shaped_scan c s _).isSolid ih
    rwa [List.nil_append, scan_append] at hToken

theorem Placed.drop {start : Nat} {us ts : List Token} {s : List Char}
    (h : Placed start (us ++ ts) s) :
    ∃ before after, s = before ++ after ∧ Placed (start + byteLength before) ts after := by
  induction us generalizing start s with
  | nil => exact ⟨[], s, rfl, h⟩
  | cons u us ih =>
    cases h with
    | @token _ gap _ _ s hGap hStart hStop hSolid hMore =>
      obtain ⟨before, after, rfl, hAfter⟩ := ih hMore
      refine ⟨gap ++ (u.text ++ before), after, by simp, ?_⟩
      have hOffset : start + byteLength (gap ++ (u.text ++ before)) =
          u.span.stop + byteLength before := by
        rw [byteLength_append, byteLength_append, hStop, hStart]
        omega
      rwa [hOffset]

/-- A row of keys takes up a piece of the text, and their characters joined are its words. -/
theorem Placed.exists_name {start : Nat} {first : Token} {more rest : List Token} {s : List Char}
    (h : Placed start (first :: (more ++ rest)) s)
    (hKeys : ∀ t ∈ first :: more, isKeyToken t = true) :
    ∃ gap name after, s = gap ++ (name ++ after) ∧ (∀ c ∈ gap, isSeparator c = true) ∧
      first.span.start = start + byteLength gap ∧
      (more.getLastD first).span.stop = first.span.start + byteLength name ∧
      StartsWord name ∧ joinTokens first more = joinWords name := by
  induction more generalizing start first s with
  | nil =>
    cases h with
    | @token _ gap _ _ s hGap hStart hStop hSolid hMore =>
      have hFirst := hSolid (hKeys first List.mem_cons_self)
      refine ⟨gap, first.text, s, rfl, hGap, hStart, hStop, ?_, (joinWords_of_solid hFirst).symm⟩
      simpa using hFirst.startsWord []
  | cons next more ih =>
    cases h with
    | @token _ gap _ _ s hGap hStart hStop hSolid hMore =>
      rw [List.forall_mem_cons] at hKeys
      have hFirst := hSolid hKeys.1
      obtain ⟨gap', name, after, rfl, hGap', hStart', hStop', hWord, hJoin⟩ := ih hMore hKeys.2
      refine ⟨gap, first.text ++ gap' ++ name, after, by simp, hGap, hStart, ?_, ?_, ?_⟩
      · rw [List.getLastD_cons, hStop', hStart', hStop, byteLength_append, byteLength_append]
        omega
      · rw [List.append_assoc]
        exact hFirst.startsWord _
      · by_cases hAdjacent : gap' = []
        · subst hAdjacent
          rw [joinTokens_adjacent _ (by rw [hStart']; rfl), hJoin, List.append_nil,
            joinWords_append hFirst.2 hWord]
        · have hPos := byteLength_pos hAdjacent
          rw [joinTokens_apart _ (by omega), hJoin, joinWords_gap hFirst hAdjacent
            (fun c hc => isBlank_of_isSeparator (hGap' c hc)) hWord]

/-! ## The tokens of a range -/

/-- The tokens of a range are those of the text that stands there. -/
theorem lexRange_middle (before inside after : List Char) :
    lexRange (before ++ inside ++ after) (byteLength before) (byteLength (before ++ inside)) =
      lexFrom (Position.start.after before) inside := by
  have hStop : min (byteLength (before ++ inside)) (byteLength (before ++ inside ++ after)) =
      byteLength (before ++ inside) := by
    rw [byteLength_append (before ++ inside)]
    omega
  have hStart : min (byteLength before) (byteLength (before ++ inside)) = byteLength before := by
    rw [byteLength_append]
    omega
  rw [lexRange]
  dsimp only
  rw [hStop, hStart, slice_middle, List.append_assoc, positionAt_append, ← offset_after_start]

theorem lexRange_placed (before inside after : List Char) :
    Placed (byteLength before) (lexRange (before ++ inside ++ after) (byteLength before)
      (byteLength (before ++ inside))).tokens inside := by
  have hPlaced := lexFrom_placed (Position.start.after before) inside
  rwa [offset_after_start, ← lexRange_middle before inside after] at hPlaced

/-- How the tokens of a piece of a source are parsed. -/
structure Recognizes (source : List Char) (lexed : Lexed) : Prop where
  /-- The parser accepts the tokens of sums, and gives what they stand for. -/
  accepts : ∀ e, (∃ e', parseExpression lexed = .ok e' ∧ e'.withoutSpans = e) ↔
    (∀ t ∈ lexed.tokens, t.invalid? = none) ∧ Derives (.sum e) lexed.tokens
  unique : ∀ e e', Derives (.sum e) lexed.tokens → Derives (.sum e') lexed.tokens → e = e'
  /-- All other tokens are rejected, at one of them or at their end. -/
  rejects : ¬ (∃ e, (∀ t ∈ lexed.tokens, t.invalid? = none) ∧ Derives (.sum e) lexed.tokens) →
    ∃ error rest, parseExpression lexed = .error error ∧ rest <:+ lexed.tokens ∧
      error.place = placeOf lexed.stop rest
  /-- Reading ends for lack of tokens, never for lack of depth. -/
  depth : ∀ n, lexed.tokens.length < n →
    expression n lexed.tokens = expression (lexed.tokens.length + 1) lexed.tokens
  /-- The name of an argument is a piece of the source between two of its characters. -/
  names : ∀ us ts key, lexed.tokens = us ++ ts → argumentKey? ts = some key →
    ∃ before name after, source = before ++ name ++ after ∧
      key.first.span.start = byteLength before ∧
      (key.more.getLastD key.first).span.stop = byteLength (before ++ name) ∧
      key.name = String.ofList (joinWords name)

theorem exists_name_of_range {before inside after : List Char} {us ts : List Token}
    {key : ArgumentKey}
    (hTokens : (lexRange (before ++ inside ++ after) (byteLength before)
      (byteLength (before ++ inside))).tokens = us ++ ts)
    (hKey : argumentKey? ts = some key) :
    ∃ before' name after', before ++ inside ++ after = before' ++ name ++ after' ∧
      key.first.span.start = byteLength before' ∧
      (key.more.getLastD key.first).span.stop = byteLength (before' ++ name) ∧
      key.name = String.ofList (joinWords name) := by
  obtain ⟨rfl, hKeys, -⟩ := argumentKey?_eq_some hKey
  have hPlaced := lexRange_placed before inside after
  rw [hTokens] at hPlaced
  obtain ⟨pre, post, rfl, hRest⟩ := hPlaced.drop
  obtain ⟨gap, name, post, rfl, -, hStart, hStop, -, hJoin⟩ := hRest.exists_name hKeys
  refine ⟨before ++ pre ++ gap, name, post ++ after, by simp, ?_, ?_, ?_⟩
  · rw [hStart, byteLength_append, byteLength_append]
  · rw [hStop, hStart, byteLength_append, byteLength_append, byteLength_append]
  · rw [ArgumentKey.name, hJoin]

/-- The parser accepts the sums among the tokens of a range and nothing else. -/
theorem recognizes_sums (before inside after : List Char) :
    Recognizes (before ++ inside ++ after)
      (lexRange (before ++ inside ++ after) (byteLength before) (byteLength (before ++ inside))) where
  accepts e := by
    rw [parseExpression_eq_ok_iff]
    exact ⟨fun h => ⟨fun t ht => (h.proper t ht).1, h⟩, And.right⟩
  unique _ _ h h' := h.unique h'
  rejects hNone := by
    generalize lexRange _ _ _ = lexed at hNone ⊢
    cases hParse : parseExpression lexed with
    | error e =>
      obtain ⟨rest, hRest, hPlace⟩ := parseExpression_eq_error hParse
      exact ⟨e, rest, rfl, hRest, hPlace⟩
    | ok e =>
      have hDerives := derives_of_parseExpression hParse
      exact absurd ⟨_, fun t ht => (hDerives.proper t ht).1, hDerives⟩ hNone
  depth _ h := expression_of_deeper h
  names _ _ _ hTokens hKey := exists_name_of_range hTokens hKey

end FormulaOutline.Formula
