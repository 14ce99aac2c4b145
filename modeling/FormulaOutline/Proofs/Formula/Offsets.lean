import FormulaOutline.Proofs.Formula.Braces
import FormulaOutline.Proofs.Formula.RoundTrip
import Mathlib.Data.List.DropRight

/-!
# Reading by offsets

Bullets are read here a second time, by byte offsets into their text, with slices that fail when an offset
is behind the end or inside a character. None of them fails, and what is read is the same.

* `slice?`: a piece of a text, only between two characters.
* `bulletAt?`: the reader by offsets.
* `bulletAt?_eq`: it never fails, and agrees with `parseBullet`.
* `Cuttable`: what is cut out of a source for tokens and for the names of arguments.
-/

namespace FormulaOutline.Formula

open Text

/-! ## Slices between characters -/

/-- The text up to a byte offset and the text from it on, if the offset is between two characters. -/
def splitBytes? : Nat → List Char → Option (List Char × List Char)
  | 0, s => some ([], s)
  | _ + 1, [] => none
  | n + 1, c :: s =>
      if c.utf8Size ≤ n + 1 then
        (splitBytes? (n + 1 - c.utf8Size) s).map fun (before, after) => (c :: before, after)
      else none

/-- The text from an offset on. -/
def textFrom? (s : List Char) (start : Nat) : Option (List Char) := (splitBytes? start s).map Prod.snd

/-- The text between two offsets. -/
def slice? (s : List Char) (start stop : Nat) : Option (List Char) :=
  if start ≤ stop then
    (textFrom? s start).bind fun after => (splitBytes? (stop - start) after).map Prod.fst
  else none

theorem splitBytes?_append (a b : List Char) : splitBytes? (byteLength a) (a ++ b) = some (a, b) := by
  induction a with
  | nil => rw [byteLength, List.nil_append, splitBytes?]
  | cons c a ih =>
    have hSize := c.utf8Size_pos
    obtain ⟨n, hn⟩ : ∃ n, byteLength (c :: a) = n + 1 :=
      Nat.exists_eq_add_one_of_ne_zero (byteLength_pos (List.cons_ne_nil c a)).ne'
    have hRest : n + 1 - c.utf8Size = byteLength a := by
      rw [← hn, byteLength]
      omega
    have hFits : c.utf8Size ≤ n + 1 := by
      rw [← hn, byteLength]
      omega
    rw [hn, List.cons_append, splitBytes?, if_pos hFits, hRest, ih]
    rfl

theorem splitBytes?_eq_some {n : Nat} {s a b : List Char} (h : splitBytes? n s = some (a, b)) :
    s = a ++ b ∧ n = byteLength a := by
  fun_induction splitBytes? n s generalizing a b with
  | case1 s =>
    cases h
    exact ⟨rfl, rfl⟩
  | case2 n => cases h
  | case3 n c s hFits ih =>
    obtain ⟨⟨a, b⟩, hRest, hSame⟩ := Option.map_eq_some_iff.1 h
    cases hSame
    obtain ⟨rfl, hLength⟩ := ih hRest
    refine ⟨rfl, ?_⟩
    rw [byteLength, ← hLength]
    omega
  | case4 => cases h

theorem textFrom?_append (a b : List Char) : textFrom? (a ++ b) (byteLength a) = some b := by
  rw [textFrom?, splitBytes?_append]
  rfl

/-- A slice is there exactly if it starts and stops between two characters. -/
theorem slice?_eq_some_iff {s t : List Char} {start stop : Nat} :
    slice? s start stop = some t ↔
      ∃ a b, s = a ++ t ++ b ∧ start = byteLength a ∧ stop = byteLength (a ++ t) := by
  constructor
  · intro h
    rw [slice?] at h
    split at h
    · rename_i hLe
      obtain ⟨after, hFrom, hTake⟩ := Option.bind_eq_some_iff.1 h
      obtain ⟨⟨a, after⟩, hStart, rfl⟩ := Option.map_eq_some_iff.1 hFrom
      obtain ⟨⟨t, b⟩, hStop, rfl⟩ := Option.map_eq_some_iff.1 hTake
      obtain ⟨rfl, rfl⟩ := splitBytes?_eq_some hStart
      obtain ⟨hAfter, hLength⟩ := splitBytes?_eq_some hStop
      dsimp only at hAfter ⊢
      refine ⟨a, b, by rw [hAfter, List.append_assoc], rfl, ?_⟩
      rw [byteLength_append]
      omega
    · cases h
  · rintro ⟨a, b, rfl, rfl, rfl⟩
    have hLength : byteLength (a ++ t) - byteLength a = byteLength t := by
      rw [byteLength_append]
      omega
    rw [slice?, if_pos (by rw [byteLength_append]; omega), List.append_assoc, textFrom?_append,
      Option.bind_some, hLength, splitBytes?_append]
    rfl

theorem slice?_middle (a t b : List Char) :
    slice? (a ++ t ++ b) (byteLength a) (byteLength (a ++ t)) = some t :=
  slice?_eq_some_iff.2 ⟨a, b, rfl, rfl, rfl⟩

/-- Offsets inside the second character cut nothing. -/
example : (slice? "aé b".toList 1 3, slice? "aé b".toList 2 3, slice? "aé b".toList 3 6) =
    (some ['é'], none, none) := by decide

/-! ## Reading by offsets -/

section Offsets

variable (source : List Char)

/-- The offset of a colon with nothing but characters of a key before it. -/
def colonFrom? : Nat → List Char → Option Nat
  | _, [] => none
  | i, c :: s =>
      if c = ':' then some i else if isKeyChar c then colonFrom? (i + c.utf8Size) s else none

/-- The key of a source and the offset behind its colon, if there is one. -/
def keyAt? : Option (Option (BulletKey × Nat)) :=
  match colonFrom? 0 source with
  | none => some none
  | some colon => do
      let raw ← slice? source 0 colon
      if isBlankText raw then some none
      else
        let start := byteLength raw - byteLength (trimStart raw)
        let stop := start + byteLength (trim raw)
        some (some (⟨String.ofList (joinWords raw), .within source start stop⟩, colon + 1))

/-- The offset behind the spaces and tabs at an offset. -/
def skipBlanks? (start : Nat) : Option Nat := do
  let rest ← textFrom? source start
  some (start + (byteLength rest - byteLength (rest.dropWhile isInlineBlank)))

/-- The formula behind the brace at an offset, and the offset behind its closing brace. -/
def bracedAt? (start : Nat) : Option (Except ParseError (Expr × Nat)) := do
  let rest ← textFrom? source (start + 1)
  match splitInline false rest with
  | none => some (.error ⟨.unterminated, positionAt source start⟩)
  | some (inside, _) =>
      let close := start + 1 + byteLength inside
      let _ ← slice? source (start + 1) close
      some ((parseExpression (lexRange source (start + 1) close)).map fun e =>
        (.inline (.within source start (close + 1)) e, close + 1))

/-- The parts from an offset on; `fuel` bounds their number. -/
def partsAt? : (fuel : Nat) → (start : Nat) → Option (Except ParseError (List Expr))
  | 0, _ => none
  | fuel + 1, start =>
      if start < byteLength source then do
        let rest ← textFrom? source start
        if rest.head? = some '\x7b' then
          match ← bracedAt? source start with
          | .error e => some (.error e)
          | .ok (part, next) => (partsAt? fuel next).map (·.map (part :: ·))
        else
          let stop := start + byteLength (rest.takeWhile (· != '\x7b'))
          let text ← slice? source start stop
          let part : Expr := .string (.within source start stop) (String.ofList text)
          (partsAt? fuel stop).map (·.map (part :: ·))
      else some (.ok [])

/-- A bullet that is read by offsets, if no slice fails and there is an end of it. -/
def bulletAt? : Option (Except ParseError Bullet) := do
  let key ← keyAt? source
  let start ← match key with
    | some (_, colon) => skipBlanks? source colon
    | none => some 0
  let parts ← partsAt? source (source.length + 1) start
  some (parts.map (⟨key.map Prod.fst, ·, .within source 0 (byteLength source)⟩))

end Offsets

section Agreement

variable {source before s rest inside after : List Char} {fuel : Nat}

theorem within_eq_between (a t b : List Char) :
    Span.within (a ++ t ++ b) (byteLength a) (byteLength (a ++ t)) =
      .between (Position.start.after a) ((Position.start.after a).after t) := by
  rw [Span.within, Span.between, List.append_assoc, positionAt_append, offset_after _ t,
    offset_after_start, byteLength_append]

theorem bracedAt?_of_unclosed (h : splitInline false rest = none) :
    bracedAt? (before ++ '\x7b' :: rest) (byteLength before) =
      some (.error ⟨.unterminated, Position.start.after before⟩) := by
  have hFrom := textFrom?_append (before ++ ['\x7b']) rest
  rw [byteLength_brace, ← List.append_cons] at hFrom
  rw [bracedAt?, hFrom, Option.bind_eq_bind, Option.bind_some, h, positionAt_append]

theorem bracedAt?_of_closed (h : splitInline false rest = some (inside, after)) :
    bracedAt? (before ++ '\x7b' :: rest) (byteLength before) =
      some ((parseBraced (Position.start.after before) inside).map fun e =>
        (e, byteLength (before ++ '\x7b' :: inside ++ ['\x7d']))) := by
  have hFrom := textFrom?_append (before ++ ['\x7b']) rest
  rw [byteLength_brace, ← List.append_cons] at hFrom
  have hClose : closingBrace? (before ++ '\x7b' :: rest) (byteLength before) =
      some (byteLength before + 1 + byteLength inside) := by
    rw [List.append_cons, closingBrace?_eq, h]
    rfl
  have hRead := (closingBrace_agrees before rest).read _ hClose
  have hText := splitInline_append h
  have hStop : byteLength before + 1 + byteLength inside =
      byteLength (before ++ ['\x7b'] ++ inside) := by
    rw [byteLength_append _ inside, byteLength_brace]
  have hInside := slice?_middle (before ++ ['\x7b']) inside ('\x7d' :: after)
  rw [List.append_assoc _ inside, hText, byteLength_brace, ← hStop, ← List.append_cons] at hInside
  have hSlice := slice_middle (before ++ ['\x7b']) inside ('\x7d' :: after)
  rw [List.append_assoc _ inside, hText, byteLength_brace, ← hStop, ← List.append_cons] at hSlice
  rw [hSlice, positionAt_append] at hRead
  have hNext : byteLength before + 1 + byteLength inside + 1 =
      byteLength (before ++ '\x7b' :: inside ++ ['\x7d']) := by
    rw [byteLength_append _ ['\x7d'], List.append_cons, ← hStop]
    rfl
  rw [bracedAt?, hFrom, Option.bind_eq_bind, Option.bind_some, h]
  dsimp only
  rw [hInside, hRead, hNext]
  cases parseExpression (lexRange (before ++ '\x7b' :: rest) (byteLength before + 1)
    (byteLength before + 1 + byteLength inside)) <;> rfl

/-- The parts by offsets are those of the text. -/
theorem partsAt?_eq (before : List Char) (h : s.length < fuel) :
    partsAt? (before ++ s) fuel (byteLength before) =
      some (parseParts (Position.start.after before) s) := by
  induction fuel generalizing before s with
  | zero => cases h
  | succ fuel ih =>
    -- The induction goes on behind the first part, with this part in what stands before.
    have hNext : ∀ {text more : List Char}, s = text ++ more → text ≠ [] →
        partsAt? (before ++ s) fuel (byteLength (before ++ text)) =
          some (parseParts ((Position.start.after before).after text) more) := by
      intro text more hText hSome
      have hShort : more.length < fuel := by
        have hLength := List.length_pos_iff.2 hSome
        rw [hText, List.length_append] at h
        omega
      rw [hText, ← List.append_assoc, ih (before ++ text) hShort, Position.after, List.foldl_append]
      rfl
    cases s with
    | nil =>
      rw [partsAt?, List.append_nil, if_neg (Nat.lt_irrefl _), parseParts]
    | cons c s =>
      have hMore : byteLength before < byteLength (before ++ c :: s) := by
        rw [byteLength_append]
        exact Nat.lt_add_of_pos_right (byteLength_pos (List.cons_ne_nil c s))
      rw [partsAt?, if_pos hMore, textFrom?_append, Option.bind_eq_bind, Option.bind_some]
      by_cases hBrace : c = '\x7b'
      · subst hBrace
        rw [List.head?_cons, if_pos rfl]
        cases hFound : splitInline false s with
        | none =>
          rw [bracedAt?_of_unclosed hFound, parseParts_unclosed _ hFound]
          rfl
        | some found =>
          obtain ⟨inside, after⟩ := found
          have hBehind := hNext (braced_eq hFound) (List.cons_ne_nil _ _)
          rw [← List.append_assoc] at hBehind
          rw [bracedAt?_of_closed hFound, parseParts_brace _ hFound]
          cases parseBraced (Position.start.after before) inside with
          | error e => rfl
          | ok part =>
            show (partsAt? _ fuel _).map _ = _
            rw [hBehind]
            cases parseParts _ after <;> rfl
      · have hText : c :: s = c :: s.takeWhile (· != '\x7b') ++ s.dropWhile (· != '\x7b') := by
          rw [List.cons_append, List.takeWhile_append_dropWhile]
        have hTake : (c :: s).takeWhile (· != '\x7b') = c :: s.takeWhile (· != '\x7b') :=
          List.takeWhile_cons_of_pos (bne_iff_ne.2 hBrace)
        have hSlice := slice?_middle before (c :: s.takeWhile (· != '\x7b')) (s.dropWhile (· != '\x7b'))
        have hSpan := within_eq_between before (c :: s.takeWhile (· != '\x7b'))
          (s.dropWhile (· != '\x7b'))
        rw [List.append_assoc, ← hText] at hSlice hSpan
        rw [List.head?_cons, if_neg fun hSame => hBrace (Option.some.inj hSame), hTake,
          parseParts_text _ _ hBrace]
        dsimp only
        rw [← byteLength_append, hSlice, hSpan, Option.bind_some, hNext hText (List.cons_ne_nil _ _)]
        cases parseParts _ (s.dropWhile (· != '\x7b')) <;> rfl

/-! ### Keys by offsets -/

theorem colonFrom?_eq (i : Nat) (s : List Char) :
    colonFrom? i s = if (s.dropWhile isKeyChar).head? = some ':' then
      some (i + byteLength (s.takeWhile isKeyChar)) else none := by
  induction s generalizing i with
  | nil => rfl
  | cons c s ih =>
    rw [colonFrom?]
    by_cases hColon : c = ':'
    · have hStop : isKeyChar ':' = false := by decide
      subst hColon
      rw [if_pos rfl, List.dropWhile_cons_of_neg (by simp [hStop]),
        List.takeWhile_cons_of_neg (by simp [hStop])]
      rfl
    · rw [if_neg hColon]
      by_cases hKey : isKeyChar c = true
      · rw [if_pos hKey, ih, List.dropWhile_cons_of_pos hKey, List.takeWhile_cons_of_pos hKey, byteLength,
          Nat.add_assoc]
      · rw [if_neg hKey, List.dropWhile_cons_of_neg hKey, List.head?_cons,
          if_neg fun hSame => hColon (Option.some.inj hSame)]

/-- A text is its blanks at both ends and what is between them. -/
theorem exists_trim (s : List Char) :
    s = s.takeWhile isBlank ++ trim s ++ (trimStart s).rtakeWhile isBlank := by
  have hEnd : trim s ++ (trimStart s).rtakeWhile isBlank = trimStart s :=
    List.rdropWhile_append_rtakeWhile
  rw [List.append_assoc, hEnd]
  exact List.takeWhile_append_dropWhile.symm

theorem byteLength_blanks (s : List Char) :
    byteLength s - byteLength (trimStart s) = byteLength (s.takeWhile isBlank) := by
  have hWhole := congrArg byteLength (List.takeWhile_append_dropWhile (p := isBlank) (l := s))
  rw [byteLength_append] at hWhole
  rw [trimStart]
  omega

theorem joinWords_trim (s : List Char) : joinWords (trim s) = joinWords s := by
  have hStart : ∀ c ∈ s.takeWhile isBlank, isBlank c = true := fun c hc => List.mem_takeWhile_imp hc
  have hEnd : ∀ c ∈ (trimStart s).rtakeWhile isBlank, isBlank c = true :=
    fun c hc => List.mem_rtakeWhile_imp hc
  have hWords : words (trim s) = words s := by
    conv_rhs => rw [exists_trim s]
    rw [List.append_assoc, words_append_blanks _ hStart, words_before_blanks _ hEnd]
  rw [joinWords, joinWords, hWords]

theorem splitKey_text {source raw rest : List Char} (h : splitKey source = some (raw, rest)) :
    source = raw ++ ':' :: rest := by
  have hWhole := List.takeWhile_append_dropWhile (p := isKeyChar) (l := source)
  rw [splitKey] at h
  split at h
  · rename_i after hDrop
    rw [hDrop] at hWhole
    split at h
    · cases h
    · cases h
      exact hWhole.symm
  · cases h

/-- The span of a key is where its name stands. -/
theorem ofRaw_eq_within (raw rest : List Char) :
    BulletKey.ofRaw raw = ⟨String.ofList (joinWords raw),
      .within (raw ++ rest) (byteLength (raw.takeWhile isBlank))
        (byteLength (raw.takeWhile isBlank) + byteLength (trim raw))⟩ := by
  have hSpan := within_eq_between (raw.takeWhile isBlank) (trim raw)
    ((trimStart raw).rtakeWhile isBlank ++ rest)
  rw [← List.append_assoc, ← exists_trim raw] at hSpan
  rw [← byteLength_append, hSpan]
  rfl

theorem keyAt?_eq (source : List Char) :
    keyAt? source =
      some ((splitKey source).map fun found => (.ofRaw found.1, byteLength found.1 + 1)) := by
  have hWhole := List.takeWhile_append_dropWhile (p := isKeyChar) (l := source)
  rw [keyAt?, colonFrom?_eq, splitKey, Nat.zero_add]
  dsimp only
  split
  · rename_i hNone
    split
    · rename_i hDrop
      rw [hDrop] at hNone
      cases hNone
    · rfl
  · rename_i colon hColon
    obtain ⟨hHead, hColon⟩ := Option.ite_none_right_eq_some.1 hColon
    obtain rfl := Option.some.inj hColon
    obtain ⟨rest, hDrop⟩ := List.head?_eq_some_iff.1 hHead
    rw [hDrop] at hWhole ⊢
    generalize source.takeWhile isKeyChar = raw at hWhole ⊢
    subst hWhole
    have hSlice : slice? (raw ++ ':' :: rest) 0 (byteLength raw) = some raw :=
      slice?_middle [] raw (':' :: rest)
    rw [hSlice, Option.bind_eq_bind, Option.bind_some]
    split
    · rfl
    · rw [byteLength_blanks]
      exact congrArg (fun key => some (some (key, byteLength raw + 1)))
        (ofRaw_eq_within raw (':' :: rest)).symm

theorem skipBlanks?_eq (before s : List Char) :
    skipBlanks? (before ++ s) (byteLength before) =
      some (byteLength (before ++ s.takeWhile isInlineBlank)) := by
  have hWhole := congrArg byteLength (List.takeWhile_append_dropWhile (p := isInlineBlank) (l := s))
  rw [byteLength_append] at hWhole
  rw [skipBlanks?, textFrom?_append, Option.bind_eq_bind, Option.bind_some, byteLength_append]
  congr 2
  omega

/-- Reading by offsets never cuts badly, and gives what reading gives. -/
theorem bulletAt?_eq (source : List Char) : bulletAt? source = some (parseBullet source) := by
  have hSpan : Span.within source 0 (byteLength source) = spanOfSource source := by
    have hWhole := within_eq_between [] source []
    rwa [List.append_nil] at hWhole
  rw [bulletAt?, keyAt?_eq, Option.bind_eq_bind, Option.bind_some, hSpan]
  cases hSplit : splitKey source with
  | none =>
    rw [parseBullet_of_keyless hSplit]
    have hParts : partsAt? source (source.length + 1) 0 = some (parseParts .start source) :=
      partsAt?_eq [] (Nat.lt_succ_self _)
    show (partsAt? source (source.length + 1) 0).bind _ = _
    rw [hParts]
    rfl
  | some found =>
    obtain ⟨raw, rest⟩ := found
    have hSource := splitKey_text hSplit
    have hColon : byteLength raw + 1 = byteLength (raw ++ [':']) := by
      rw [byteLength_append]
      rfl
    have hBlanks := skipBlanks?_eq (raw ++ [':']) rest
    rw [← List.append_cons, ← List.append_cons, ← hSource, ← hColon] at hBlanks
    have hText : raw ++ ':' :: rest.takeWhile isInlineBlank ++ rest.dropWhile isInlineBlank = source := by
      rw [List.append_assoc, List.cons_append, List.takeWhile_append_dropWhile, hSource]
    have hShort : (rest.dropWhile isInlineBlank).length < source.length + 1 := by
      rw [← hText, List.length_append]
      omega
    have hParts := partsAt?_eq (raw ++ ':' :: rest.takeWhile isInlineBlank) hShort
    rw [hText] at hParts
    rw [parseBullet_of_key hSplit]
    show (skipBlanks? source (byteLength raw + 1)).bind _ = _
    rw [hBlanks, Option.bind_some]
    show (partsAt? source (source.length + 1) _).bind _ = _
    rw [hParts]
    rfl

end Agreement

/-! ## Slices for tokens -/

/-- What is cut out of a source for the tokens of a range that ends at `stop`. -/
structure Cuttable (source : List Char) (stop : Nat) (ts : List Token) : Prop where
  /-- Every piece of a token stands in the source where it stands in the token. -/
  pieces : ∀ t ∈ ts, ∀ a piece b, t.text = a ++ piece ++ b →
    slice? source (t.span.start + byteLength a) (t.span.start + byteLength (a ++ piece)) = some piece
  /-- So does the rest of the range from within a token on. -/
  rests : ∀ t ∈ ts, ∀ a b, t.text = a ++ b →
    ∃ rest, slice? source (t.span.start + byteLength a) stop = some (b ++ rest)
  /-- The name of an argument is a slice of the source with single spaces. -/
  names : ∀ us vs key, ts = us ++ vs → argumentKey? vs = some key →
    ∃ name, slice? source key.first.span.start (key.more.getLastD key.first).span.stop = some name ∧
      key.name = String.ofList (joinWords name)

theorem Placed.exists_text {start : Nat} {ts : List Token} {s : List Char} (h : Placed start ts s)
    {t : Token} (ht : t ∈ ts) :
    ∃ a b, s = a ++ t.text ++ b ∧ t.span.start = start + byteLength a ∧
      t.span.stop = start + byteLength (a ++ t.text) := by
  obtain ⟨us, vs, rfl⟩ := List.append_of_mem ht
  obtain ⟨before, after, rfl, hRest⟩ := h.drop
  cases hRest with
  | @token _ gap _ _ s hGap hStart hStop =>
    rw [Nat.add_assoc, ← byteLength_append] at hStart
    refine ⟨before ++ gap, s, by simp, hStart, ?_⟩
    rw [hStop, hStart, byteLength_append _ t.text, Nat.add_assoc]

/-- The tokens of a range between two characters are cut out between characters. -/
theorem cuttable_lexRange {source inside : List Char} {start stop : Nat}
    (h : slice? source start stop = some inside) :
    Cuttable source stop (lexRange source start stop).tokens := by
  obtain ⟨before, after, rfl, rfl, rfl⟩ := slice?_eq_some_iff.1 h
  have hPlaced := lexRange_placed before inside after
  refine ⟨fun t ht a piece b hText => ?_, fun t ht a b hText => ?_, fun us vs key hTokens hKey => ?_⟩
  · obtain ⟨gap, more, rfl, hStart, -⟩ := hPlaced.exists_text ht
    refine slice?_eq_some_iff.2 ⟨before ++ gap ++ a, b ++ more ++ after, by simp [hText], ?_, ?_⟩
    · rw [hStart, byteLength_append, byteLength_append]
    · rw [hStart, List.append_assoc (before ++ gap), byteLength_append (before ++ gap),
        byteLength_append before]
  · obtain ⟨gap, more, rfl, hStart, -⟩ := hPlaced.exists_text ht
    refine ⟨more, slice?_eq_some_iff.2 ⟨before ++ gap ++ a, after, by simp [hText], ?_, ?_⟩⟩
    · rw [hStart, byteLength_append, byteLength_append]
    · rw [hText]
      simp only [List.append_assoc]
  · obtain ⟨a, name, b, hSource, hStart, hStop, hName⟩ := exists_name_of_range hTokens hKey
    exact ⟨name, slice?_eq_some_iff.2 ⟨a, b, hSource, hStart, hStop⟩, hName⟩

end FormulaOutline.Formula
