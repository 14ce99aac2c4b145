import FormulaOutline.Proofs.Formula.Slices

/-!
# The lines and columns of tokens

The place of a token is counted while the tokens before it are read: a line that ends between two
tokens starts a new one, a line that ends within a token is read over. Only strings go over the ends
of lines, so the tokens behind such a string are given a line that is too small.

* `Misses`: two places at one offset, the first some lines short of the second.
* `lexFrom_misses`: the given places miss the lines that end within the tokens before them.
* `isString_of_newline`: only strings go over the ends of lines.
* `place_eq_positionAt_iff`: when the place of a token is the one it is shown at.
-/

namespace FormulaOutline.Formula

open Text

/-- The place that is given to a token by its number, and to the end behind the last one. -/
def Lexed.place (lexed : Lexed) (k : Nat) : Position := placeOf lexed.stop (lexed.tokens.drop k)

/-- How many lines end within tokens. -/
def breaks (ts : List Token) : Nat := (ts.flatMap Token.text).count '\n'

theorem breaks_cons (t : Token) (ts : List Token) :
    breaks (t :: ts) = t.text.count '\n' + breaks ts := by
  rw [breaks, List.flatMap_cons, List.count_append, ← breaks]

theorem breaks_eq_zero {ts : List Token} : breaks ts = 0 ↔ ∀ t ∈ ts, '\n' ∉ t.text := by
  simp only [breaks, List.count_eq_zero, List.mem_flatMap]
  grind

/-! ## Counting -/

/-- The first place has the offset of the second one and lies some lines above it; it is the same
place if that are no lines. -/
structure Misses (k : Nat) (p q : Position) : Prop where
  offset : p.offset = q.offset
  line : p.line + k = q.line
  same : k = 0 → p = q

theorem misses_same (p : Position) : Misses 0 p p := ⟨rfl, rfl, fun _ => rfl⟩

section Misses

variable {k : Nat} {p q : Position} (h : Misses k p q)
include h

theorem Misses.eq_iff : p = q ↔ k = 0 := by
  refine ⟨?_, h.same⟩
  rintro rfl
  have hLine := h.line
  omega

/-- Between tokens both places count the ends of lines. -/
theorem Misses.next (c : Char) : Misses k (p.next c) (q.next c) := by
  obtain ⟨hOffset, hLine, hSame⟩ := h
  refine ⟨?_, ?_, fun hNone => by rw [hSame hNone]⟩
  · rw [offset_next, offset_next, hOffset]
  · unfold Position.next Position.advance
    split
    · dsimp only
      omega
    · exact hLine

/-- Within a token only the second place counts them. -/
theorem Misses.advance (c : Char) : Misses (k + [c].count '\n') (p.advance c) (q.next c) := by
  obtain ⟨hOffset, hLine, hSame⟩ := h
  by_cases hBreak : c = '\n'
  · subst hBreak
    refine ⟨?_, ?_, fun hNone => by simp at hNone⟩
    · rw [offset_next, Position.advance, hOffset]
    · rw [Position.next, if_pos rfl, List.count_singleton_self, Position.advance]
      dsimp only
      omega
  · rw [List.count_eq_zero.2 (by simpa using Ne.symm hBreak), Nat.add_zero, Position.next,
      if_neg hBreak]
    exact ⟨by rw [Position.advance, hOffset]; rfl, hLine, fun hNone => by rw [hSame hNone]⟩

theorem Misses.along (s : List Char) : Misses (k + s.count '\n') (p.along s) (q.after s) := by
  induction s generalizing k p q with
  | nil => exact h
  | cons c s ih =>
    have hRest := ih (h.advance c)
    rwa [Nat.add_assoc, ← List.count_append] at hRest

end Misses

/-! ## Reading -/

/-- The place of a token misses the lines that end within the tokens before it. -/
theorem lexFrom_misses {k : Nat} {p q : Position} {s : List Char} {ts rest : List Token}
    (h : Misses k p q) (hTokens : (lexFrom p s).tokens = ts ++ rest) :
    ∃ before after, s = before ++ after ∧
      Misses (k + breaks ts) (placeOf (lexFrom p s).stop rest) (q.after before) := by
  induction p, s using lexFrom.induct generalizing k q ts with
  | case1 p =>
    rw [lexFrom] at hTokens ⊢
    obtain ⟨rfl, rfl⟩ := List.append_eq_nil_iff.1 hTokens.symm
    exact ⟨[], [], rfl, h⟩
  | case2 p c s hSeparator ih =>
    rw [lexFrom_separator _ _ hSeparator] at hTokens ⊢
    obtain ⟨before, after, rfl, hMisses⟩ := ih (h.next c) hTokens
    exact ⟨c :: before, after, rfl, hMisses⟩
  | case3 p c s hSeparator =>
    rename_i scanned stop ih
    rw [lexFrom_cons _ _ (by simpa using hSeparator)] at hTokens ⊢
    cases ts with
    | nil =>
      cases hTokens
      exact ⟨[], c :: s, rfl, h⟩
    | cons t ts =>
      rw [List.cons_append, List.cons.injEq] at hTokens
      obtain ⟨rfl, hLater⟩ := hTokens
      obtain ⟨before, after, hRest, hMisses⟩ := ih (h.along scanned.text) hLater
      refine ⟨scanned.text ++ before, after, ?_, ?_⟩
      · rw [List.append_assoc, ← hRest]
        exact (scan_append c s).symm
      · rw [breaks_cons, ← Nat.add_assoc, Position.after, List.foldl_append]
        exact hMisses

/-! ## Strings -/

/-- The token is a string, closed or not. -/
def Token.IsString (t : Token) : Prop :=
  (∃ v, t.kind = .string v) ∨ t.kind = .invalid .unterminatedString

theorem newline_not_mem_scanReference (s : List Char) : '\n' ∉ (scanReference s).text := by
  have hId : ∀ t : List Char, '\n' ∉ t.takeWhile isIdChar := by
    intro t hMem
    have hChar := List.mem_takeWhile_imp hMem
    revert hChar
    decide
  unfold scanReference
  split
  · split <;> simp [hId]
  · simp

theorem isString_scan {c : Char} {s : List Char} {span : Span} (hToken : isSeparator c = false)
    (h : '\n' ∈ (scan c s).text) : Token.IsString ⟨(scan c s).kind, (scan c s).text, span⟩ := by
  have hKey : isKeyToken ⟨(scan c s).kind, (scan c s).text, span⟩ = true → False := by
    intro hKey
    have hSolid := ((shaped_scan c s span).isSolid hKey).2 '\n' h
    cases hSolid
  rcases scan_cases c s with ⟨sign, rfl, hScan⟩ | ⟨-, hScan⟩ | ⟨-, v, text, after, -, hScan⟩ |
    ⟨hDigit, hScan⟩ | ⟨hStart, hScan⟩ | ⟨-, text, after, -, hScan⟩ | ⟨-, -, hScan⟩
  · rw [hScan, List.mem_singleton] at h
    rw [← h] at hToken
    cases hToken
  · rw [hScan] at h
    exact absurd h (newline_not_mem_scanReference s)
  · exact .inl ⟨_, congrArg Scanned.kind hScan⟩
  · obtain ⟨x, hNumber, -⟩ := spells_scanNumber s hDigit
    rw [isKeyToken, hScan, hNumber] at hKey
    cases hKey rfl
  · rw [hScan] at hKey
    cases hKey rfl
  · exact .inr (congrArg Scanned.kind hScan)
  · rw [hScan, List.mem_singleton] at h
    rw [← h] at hToken
    cases hToken

/-- Only strings go over the ends of lines. -/
theorem isString_of_newline {p : Position} {s : List Char} {t : Token}
    (ht : t ∈ (lexFrom p s).tokens) (h : '\n' ∈ t.text) : t.IsString := by
  fun_induction lexFrom p s with
  | case1 => cases ht
  | case2 p c s hSeparator ih => exact ih ht
  | case3 p c s hSeparator scanned stop later ih =>
    rcases List.mem_cons.1 ht with rfl | hLater
    · exact isString_scan (by simpa using hSeparator) h
    · exact ih hLater

/-! ## Shown places -/

/-- How the place that is given to a token of a range, or to its end, stands to the line and column
that its offset is shown at: it misses the lines that end within the strings before it in the range,
and is right if and only if there are none. -/
theorem place_eq_positionAt_iff (before inside after : List Char) (k : Nat) :
    let source := before ++ inside ++ after
    let lexed := lexRange source (byteLength before) (byteLength (before ++ inside))
    let shown := positionAt source (lexed.place k).offset
    shown.offset = (lexed.place k).offset ∧
      (lexed.place k).line + breaks (lexed.tokens.take k) = shown.line ∧
      (lexed.place k = shown ↔ ∀ t ∈ lexed.tokens.take k, t.IsString → '\n' ∉ t.text) := by
  intro source lexed shown
  have hLexed : lexed = lexFrom (Position.start.after before) inside :=
    lexRange_middle before inside after
  have hSplit : (lexFrom (Position.start.after before) inside).tokens =
      lexed.tokens.take k ++ lexed.tokens.drop k := by
    rw [List.take_append_drop, hLexed]
  obtain ⟨pre, post, hInside, hMisses⟩ :=
    lexFrom_misses (misses_same (Position.start.after before)) hSplit
  rw [Nat.zero_add, ← hLexed] at hMisses
  have hEnd : (Position.start.after before).after pre = Position.start.after (before ++ pre) := by
    rw [Position.after, Position.after, Position.after, List.foldl_append]
  have hShown : shown = Position.start.after (before ++ pre) := by
    have hOffset : (lexed.place k).offset = byteLength (before ++ pre) := by
      rw [← offset_after_start, ← hEnd]
      exact hMisses.offset
    have hSource : source = (before ++ pre) ++ (post ++ after) := by
      simp only [source, hInside, List.append_assoc]
    rw [← positionAt_append _ (post ++ after), ← hSource, ← hOffset]
  rw [hEnd, ← hShown] at hMisses
  refine ⟨hMisses.offset.symm, hMisses.line, hMisses.eq_iff.trans (breaks_eq_zero.trans ?_)⟩
  refine forall₂_congr fun t ht => ⟨fun h _ => h, fun h hBreak => h ?_ hBreak⟩
  exact isString_of_newline (hLexed ▸ List.mem_of_mem_take ht) hBreak

/-- Behind a string over two lines the next token is given the line that the string starts on. -/
theorem place_ne_positionAt :
    let source := ['"', 'a', '\n', 'b', '"', ' ', 'c']
    let lexed := lexRange source 0 (byteLength source)
    (lexed.tokens.drop 1).map Token.text = [['c']] ∧ lexed.place 1 = ⟨6, 1, 7⟩ ∧
      positionAt source (lexed.place 1).offset = ⟨6, 2, 4⟩ := by
  cbv

end FormulaOutline.Formula
