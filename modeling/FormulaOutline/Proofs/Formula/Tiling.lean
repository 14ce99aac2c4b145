import FormulaOutline.Proofs.Formula.Anchors
import FormulaOutline.Proofs.Formula.Offsets
import FormulaOutline.Proofs.Formula.Rereading

/-!
# The text of a bullet

The parts of a bullet tile its text from the end of the key on, each stands for what is written there,
and a text that cannot be read is kept as it is. The tokens of a range tile it up to the blanks between
them, and each is read again from its slice.

* `Tiled`, `IsPart`: parts that stand one after the other, each for its piece of the source.
* `PartsOf`: the parts of the text behind another text; `CutInto.partsOf` adds one part after the other.
* `StartsAt`: where the parts start, and what the key is.
* `bullets_keep_text`: what holds of every text.
* `isSeparator_of_outside`, `kinds_of_mem_lexFrom`: what is in no token, and what is in one of them.
* `Lossless`: what the tokens of a range keep of it; `lexRange_lossless` says that of every range.
-/

namespace FormulaOutline.Formula

open Text

/-! ## Tiles -/

/-- The parts have spans that are not empty, and follow one another between two offsets. -/
inductive Tiled : Nat → List Expr → Nat → Prop
  | done {stop} : Tiled stop [] stop
  | part {start stop e parts} : e.span.start = start → start < e.span.stop →
      Tiled e.span.stop parts stop → Tiled start (e :: parts) stop

/-- A part says what the source says where it stands: a literal text is that text, a formula is read
from it. -/
inductive IsPart (source : List Char) : Expr → Prop
  | literal {s v} : slice? source s.start s.stop = some v.toList → '\x7b' ∉ v.toList →
      IsPart source (.string s v)
  | formula {s e inside e'} : slice? source s.start s.stop = some ('\x7b' :: inside ++ ['\x7d']) →
      parseInline ('\x7b' :: inside ++ ['\x7d']) = .ok e' →
      e'.withoutSpans = (Expr.inline s e).withoutSpans → IsPart source (.inline s e)

/-- The parts of the text behind another text. -/
structure PartsOf (before s : List Char) (parts : List Expr) : Prop where
  tiled : Tiled (byteLength before) parts (byteLength (before ++ s))
  each : ∀ e ∈ parts, IsPart (before ++ s) e
  apart : Apart parts
  /-- Literal text is first only if there is no brace. -/
  first : ∀ e ∈ parts.head?, isLiteral e = true → ∃ c ∈ s.head?, c ≠ '\x7b'

/-- One more part before others: no literal text, or one that ends where a formula starts. -/
theorem PartsOf.cons {before text s : List Char} {parts : List Expr} {e : Expr}
    (h : PartsOf (before ++ text) s parts) (hStart : e.span.start = byteLength before)
    (hStop : e.span.stop = byteLength (before ++ text)) (hSome : text ≠ [])
    (hPart : IsPart (before ++ text ++ s) e)
    (hLiteral : isLiteral e = true → '\x7b' ∉ text ∧ ∀ c ∈ s.head?, c = '\x7b') :
    PartsOf before (text ++ s) (e :: parts) where
  tiled := by
    have hMore : byteLength before < e.span.stop := by
      rw [hStop, byteLength_append]
      exact Nat.lt_add_of_pos_right (byteLength_pos hSome)
    refine .part hStart hMore ?_
    rw [hStop, ← List.append_assoc]
    exact h.tiled
  each := by
    rw [← List.append_assoc]
    exact List.forall_mem_cons.2 ⟨hPart, h.each⟩
  apart := by
    refine List.isChain_cons.2 ⟨fun e' hHead => ?_, h.apart⟩
    rw [Bool.and_eq_false_imp]
    intro hText
    by_contra hOther
    obtain ⟨c, hc, hNoBrace⟩ := h.first e' hHead (Bool.eq_true_of_not_eq_false hOther)
    exact hNoBrace ((hLiteral hText).2 c hc)
  first e' hHead hText := by
    cases hHead
    obtain ⟨c, text, rfl⟩ := List.exists_cons_of_ne_nil hSome
    refine ⟨c, rfl, ?_⟩
    rintro rfl
    exact (hLiteral hText).1 List.mem_cons_self

/-- A formula between braces is read from these alone. -/
theorem parseInline_braced {p : Position} {inside : List Char} {e : Expr} (s : Span)
    (hPasses : Passes false inside false) (h : parseExpression (lexFrom p inside) = .ok e) :
    ∃ e', parseInline ('\x7b' :: inside ++ ['\x7d']) = .ok e' ∧
      e'.withoutSpans = (Expr.inline s e).withoutSpans := by
  obtain ⟨e', hRead, hSame⟩ := parseExpression_elsewhere (Position.start.next '\x7b') h
  have hSplit : splitInline false (inside ++ ['\x7d']) = some (inside, []) := by
    rw [hPasses, splitInline, Option.map_some, List.append_nil]
  have hBlank : isInlineBlank '\x7b' = false := by decide
  have hTake : ('\x7b' :: (inside ++ ['\x7d'])).takeWhile isInlineBlank = [] :=
    List.takeWhile_cons_of_neg (by simp [hBlank])
  have hDrop : ('\x7b' :: (inside ++ ['\x7d'])).dropWhile isInlineBlank =
      '\x7b' :: (inside ++ ['\x7d']) :=
    List.dropWhile_cons_of_neg (by simp [hBlank])
  refine ⟨.inline (.between .start (Position.start.after ('\x7b' :: inside ++ ['\x7d']))) e', ?_, ?_⟩
  · rw [List.cons_append, parseInline, hTake, hDrop]
    simp only [hSplit]
    show parseBraced .start inside >>= _ = _
    rw [parseBraced, hRead]
    rfl
  · rw [Expr.withoutSpans, Expr.withoutSpans, hSame]

theorem CutInto.partsOf {s : List Char} {parts : List Expr} (before : List Char)
    (h : CutInto (Position.start.after before) s parts) : PartsOf before s parts := by
  generalize hp : Position.start.after before = p at h
  induction h generalizing before with
  | nothing =>
    exact ⟨by rw [List.append_nil]; exact .done, List.forall_mem_nil _, List.isChain_nil,
      fun e he => by cases he⟩
  | @formula p inside after e parts hPasses hRead _ ih =>
    subst hp
    obtain ⟨e', hAgain, hSame⟩ := parseInline_braced .none hPasses hRead
    rw [← within_eq_between before ('\x7b' :: inside ++ ['\x7d']) after]
    refine (ih (before ++ ('\x7b' :: inside ++ ['\x7d'])) List.foldl_append).cons rfl rfl
      (List.cons_ne_nil _ _) ?_ (fun hLiteral => by cases hLiteral)
    exact .formula (slice?_middle _ _ _) hAgain hSame
  | @literal p text after parts hSome hBrace hStop _ ih =>
    subst hp
    rw [← within_eq_between before text after]
    refine (ih (before ++ text) List.foldl_append).cons rfl rfl hSome ?_ fun _ => ⟨hBrace, hStop⟩
    refine .literal ?_ ?_
    · rw [String.toList_ofList]
      exact slice?_middle _ _ _
    · rwa [String.toList_ofList]

/-! ## Bullets -/

/-- Where the parts of a source start: at its start, or behind the colon of its key and the spaces and
tabs that follow. -/
inductive StartsAt (source : List Char) : Option BulletKey → Nat → Prop
  | plain : StartsAt source none 0
  | key {k raw blanks s} : source = raw ++ ':' :: (blanks ++ s) → ':' ∉ raw →
      (∀ c ∈ blanks, isInlineBlank c = true) → (∀ c ∈ s.head?, isInlineBlank c = false) →
      k.span.stop ≤ byteLength raw → slice? source k.span.start k.span.stop = some (trim raw) →
      k.name = String.ofList (joinWords (trim raw)) →
      StartsAt source (some k) (byteLength (raw ++ ':' :: blanks))

/-- What a bullet tells of the source that it was read from. -/
structure Keeps (source : List Char) (b : Bullet) : Prop where
  /-- The parts tile the source behind the key. -/
  tiled : ∃ start, StartsAt source b.key start ∧ Tiled start b.parts (byteLength source)
  each : ∀ e ∈ b.parts, IsPart source e
  apart : Apart b.parts

theorem startsAt_of_splitKey {source raw rest : List Char} (h : splitKey source = some (raw, rest)) :
    StartsAt source (some (.ofRaw raw)) (byteLength (raw ++ ':' :: rest.takeWhile isInlineBlank)) := by
  have hStop : isKeyChar ':' = false := by decide
  have hKey := ofRaw_eq_within raw (':' :: rest)
  have hSlice := slice?_middle (raw.takeWhile isBlank) (trim raw)
    ((trimStart raw).rtakeWhile isBlank ++ ':' :: rest)
  rw [← List.append_assoc, ← exists_trim raw, byteLength_append] at hSlice
  rw [← splitKey_text h] at hKey hSlice
  refine .key (s := rest.dropWhile isInlineBlank) ?_ (fun hMem => ?_)
    (fun c hc => List.mem_takeWhile_imp hc) (head_dropWhile rest) ?_ ?_ ?_
  · rw [List.takeWhile_append_dropWhile, ← splitKey_text h]
  · rw [(splitKey_eq_some h).2 _ hMem] at hStop
    cases hStop
  · have hLength := congrArg byteLength (exists_trim raw)
    rw [byteLength_append, byteLength_append] at hLength
    rw [hKey, hLength]
    exact Nat.le_add_right _ _
  · rw [hKey]
    exact hSlice
  · rw [joinWords_trim]
    rfl

/-- What is read of a text keeps it. -/
theorem keeps_of_parseBullet {source : List Char} {b : Bullet} (h : parseBullet source = .ok b) :
    Keeps source b := by
  cases hSplit : splitKey source with
  | none =>
    rw [parseBullet_of_keyless hSplit] at h
    obtain ⟨parts, hParts, rfl⟩ := map_eq_ok.mp h
    obtain ⟨hTiled, hEach, hApart, -⟩ := (cutInto_of_parseParts hParts).partsOf []
    exact ⟨⟨0, .plain, hTiled⟩, hEach, hApart⟩
  | some found =>
    obtain ⟨raw, rest⟩ := found
    rw [parseBullet_of_key hSplit] at h
    obtain ⟨parts, hParts, rfl⟩ := map_eq_ok.mp h
    have hText : raw ++ ':' :: rest.takeWhile isInlineBlank ++ rest.dropWhile isInlineBlank = source := by
      rw [List.append_assoc, List.cons_append, List.takeWhile_append_dropWhile, ← splitKey_text hSplit]
    obtain ⟨hTiled, hEach, hApart, -⟩ := (cutInto_of_parseParts hParts).partsOf _
    rw [hText] at hTiled hEach
    exact ⟨⟨_, startsAt_of_splitKey hSplit, hTiled⟩, hEach, hApart⟩

/-- What reading a text as a bullet keeps of it. -/
structure KeepsText (source : List Char) : Prop where
  /-- Reading it by offsets ends, cuts nothing but slices between characters, and gives the same. -/
  offsets : bulletAt? source = some (parseBullet source)
  /-- The tokens of a slice are cut out in the same way. -/
  tokens : ∀ start stop inside, slice? source start stop = some inside →
    Cuttable source stop (lexRange source start stop).tokens
  /-- A bullet that is read keeps all of the text. -/
  read : ∀ b, parseBullet source = .ok b → Keeps source b
  /-- A text that cannot be read is kept as literal text. -/
  literal : ∀ e, parseBullet source = .error e →
    (bulletOrLiteral source).key = none ∧
      (∀ part ∈ (bulletOrLiteral source).parts, isLiteral part = true) ∧
      (bulletOrLiteral source).parts.flatMap Bullet.writePart = source

/-- Whatever the text of a bullet is, reading it never cuts badly and loses nothing of it. -/
theorem bullets_keep_text (source : List Char) : KeepsText source where
  offsets := bulletAt?_eq source
  tokens _ _ _ h := cuttable_lexRange h
  read _ h := keeps_of_parseBullet h
  literal e h := by
    rw [bulletOrLiteral, h]
    by_cases hNone : source = []
    · subst hNone
      exact ⟨rfl, List.forall_mem_nil _, rfl⟩
    · have hParts : (Bullet.literal source).parts =
          [.string ⟨0, byteLength source, 1, 1⟩ (String.ofList source)] := if_neg hNone
      dsimp only
      rw [hParts]
      refine ⟨rfl, List.forall_mem_singleton.2 rfl, ?_⟩
      rw [List.flatMap_singleton, Bullet.writePart, String.toList_ofList]

/-! ## Tokens of a range -/

/-- The tokens of the range between two texts lose nothing of it but separators. -/
structure Lossless (before inside after : List Char) (lexed : Lexed) : Prop where
  /-- Reading ends where the range does, after no more tokens than characters. -/
  stop : lexed.stop.offset = byteLength (before ++ inside)
  few : lexed.tokens.length ≤ inside.length
  /-- A token takes up its text in the range, which is not empty and cut out between characters. -/
  slices : ∀ t ∈ lexed.tokens,
    slice? (before ++ inside ++ after) t.span.start t.span.stop = some t.text
  nonempty : ∀ t ∈ lexed.tokens, t.span.start < t.span.stop
  within : ∀ t ∈ lexed.tokens,
    byteLength before ≤ t.span.start ∧ t.span.stop ≤ byteLength (before ++ inside)
  /-- One token ends before the next one starts. -/
  ordered : lexed.tokens.Pairwise fun t u => t.span.stop ≤ u.span.start
  /-- What stands in no token is a separator. -/
  separators : ∀ a c b, inside = a ++ c :: b →
    (∀ t ∈ lexed.tokens, byteLength (before ++ a) ∉ Set.Ico t.span.start t.span.stop) →
      isSeparator c = true
  /-- The slice of a valid token is that token and no other one, in its place and by itself. -/
  alone : ∀ t ∈ lexed.tokens, t.invalid? = none →
    (lexRange (before ++ inside ++ after) t.span.start t.span.stop).tokens.map Token.kind = [t.kind] ∧
      (lex t.text).tokens.map Token.kind = [t.kind]

theorem offset_stop_lexFrom (p : Position) (s : List Char) :
    (lexFrom p s).stop.offset = p.offset + byteLength s := by
  fun_induction lexFrom p s with
  | case1 p => rfl
  | case2 p c s hSeparator ih => rw [ih, offset_next, byteLength, Nat.add_assoc]
  | case3 p c s hSeparator scanned stop later ih =>
    rw [← scan_append c s, byteLength_append, ← Nat.add_assoc, ← offset_along]
    exact ih

theorem length_lexFrom_le (p : Position) (s : List Char) :
    (lexFrom p s).tokens.length ≤ s.length := by
  fun_induction lexFrom p s with
  | case1 p => exact Nat.le_refl _
  | case2 p c s hSeparator ih => exact Nat.le_succ_of_le ih
  | case3 p c s hSeparator scanned stop later ih =>
    exact Nat.succ_le_succ (ih.trans (scan_rest_length_le c s))

theorem text_ne_nil_of_mem_lexFrom {p : Position} {s : List Char} :
    ∀ t ∈ (lexFrom p s).tokens, t.text ≠ [] := by
  fun_induction lexFrom p s with
  | case1 p => exact List.forall_mem_nil _
  | case2 p c s hSeparator ih => exact ih
  | case3 p c s hSeparator scanned stop later ih =>
    exact List.forall_mem_cons.2 ⟨scan_text_ne_nil c s, ih⟩

/-- A character that is in no token is a separator. -/
theorem isSeparator_of_outside {p : Position} {s a b : List Char} {c : Char} (h : s = a ++ c :: b)
    (hOutside : ∀ t ∈ (lexFrom p s).tokens,
      p.offset + byteLength a ∉ Set.Ico t.span.start t.span.stop) : isSeparator c = true := by
  induction p, s using lexFrom.induct generalizing a with
  | case1 p => simp at h
  | case2 p d s hSeparator ih =>
    rw [lexFrom_separator _ _ hSeparator] at hOutside
    rcases List.cons_eq_append_iff.1 h with ⟨rfl, hText⟩ | ⟨a, rfl, hText⟩
    · cases hText
      exact hSeparator
    · refine ih hText fun t ht => ?_
      rw [offset_next, Nat.add_assoc]
      exact hOutside t ht
  | case3 p d s hSeparator =>
    rename_i scanned stop ih
    rw [lexFrom_cons _ _ (by simpa using hSeparator), List.forall_mem_cons] at hOutside
    obtain ⟨hFirst, hLater⟩ := hOutside
    have hBehind : byteLength scanned.text ≤ byteLength a := by
      by_contra hIn
      refine hFirst ⟨Nat.le_add_right _ _, ?_⟩
      rw [Span.between, offset_along]
      exact Nat.add_lt_add_left (Nat.lt_of_not_le hIn) _
    obtain ⟨a', rfl, hRest⟩ : ∃ a', a = scanned.text ++ a' ∧ scanned.rest = a' ++ c :: b := by
      rw [← scan_append d s] at h
      rcases List.append_eq_append_iff.1 h with hMore | ⟨more, hText, hMore⟩
      · exact hMore
      · obtain rfl : more = [] := by
          by_contra hSome
          have hPositive := byteLength_pos hSome
          rw [hText, byteLength_append] at hBehind
          omega
        exact ⟨[], by rw [hText]; simp, hMore.symm⟩
    refine ih hRest fun t ht => ?_
    rw [offset_along, Nat.add_assoc, ← byteLength_append]
    exact hLater t ht

/-- The text of a valid token is read as this token, wherever it stands. -/
theorem kinds_of_mem_lexFrom {p : Position} {s : List Char} {t : Token}
    (ht : t ∈ (lexFrom p s).tokens) (hValid : t.invalid? = none) (q : Position) :
    (lexFrom q t.text).tokens.map Token.kind = [t.kind] := by
  obtain ⟨us, vs, hTokens⟩ := List.append_of_mem ht
  rw [← List.singleton_append, ← List.append_assoc] at hTokens
  have hLast : [t].getLast? = some t := rfl
  obtain ⟨pre, text, post, rfl, hStart, hStop, hAlike⟩ :=
    exists_piece hTokens rfl hLast (List.forall_mem_singleton.2 hValid)
  obtain ⟨a, b, hText, hStart', hStop'⟩ := (lexFrom_placed p _).exists_text ht
  have hSame : some text = some t.text := by
    rw [← slice?_middle pre text post, ← slice?_middle a t.text b, ← hText]
    congr 1 <;> omega
  obtain ⟨k, hAlike⟩ := hAlike q
  rw [Option.some.inj hSame] at hAlike
  obtain ⟨u, us, hToken, hNone, hTokens⟩ := List.forall₂_cons_left_iff.1 hAlike
  rw [hTokens, List.forall₂_nil_left_iff.1 hNone, hToken.kind, List.map_singleton]

/-- Reading the tokens of a range between two characters of a source loses nothing but separators. -/
theorem lexRange_lossless (before inside after : List Char) :
    Lossless before inside after
      (lexRange (before ++ inside ++ after) (byteLength before) (byteLength (before ++ inside))) := by
  have hOffset := offset_after_start before
  have hPlaced := lexFrom_placed (Position.start.after before) inside
  rw [hOffset] at hPlaced
  -- In the whole source the range starts behind the text before it.
  have hPiece : ∀ t ∈ (lexFrom (Position.start.after before) inside).tokens, ∃ a b,
      before ++ inside ++ after = a ++ t.text ++ b ∧ t.span.start = byteLength a ∧
        t.span.stop = byteLength (a ++ t.text) := by
    intro t ht
    obtain ⟨a, b, rfl, hStart, hStop⟩ := hPlaced.exists_text ht
    refine ⟨before ++ a, b ++ after, by simp, ?_, ?_⟩
    · rw [hStart, byteLength_append]
    · rw [hStop, List.append_assoc, byteLength_append before]
  rw [lexRange_middle]
  constructor
  case stop => rw [offset_stop_lexFrom, hOffset, byteLength_append]
  case few => exact length_lexFrom_le _ inside
  case slices =>
    intro t ht
    obtain ⟨a, b, hText, hStart, hStop⟩ := hPiece t ht
    rw [hText, hStart, hStop]
    exact slice?_middle a t.text b
  case nonempty =>
    intro t ht
    obtain ⟨a, b, -, hStart, hStop⟩ := hPlaced.exists_text ht
    have hPositive := byteLength_pos (text_ne_nil_of_mem_lexFrom t ht)
    rw [byteLength_append] at hStop
    omega
  case within =>
    intro t ht
    obtain ⟨hStart, -, hStop⟩ := hPlaced.between.inside t.span (List.mem_map_of_mem ht)
    rw [byteLength_append]
    exact ⟨hStart, hStop⟩
  case ordered => exact List.pairwise_map.1 hPlaced.between.pairwise
  case separators =>
    intro a c b hText hOutside
    refine isSeparator_of_outside (p := Position.start.after before) hText fun t ht => ?_
    rw [hOffset, ← byteLength_append]
    exact hOutside t ht
  case alone =>
    intro t ht hValid
    obtain ⟨a, b, hText, hStart, hStop⟩ := hPiece t ht
    rw [hText, hStart, hStop, lexRange_middle]
    exact ⟨kinds_of_mem_lexFrom ht hValid _, kinds_of_mem_lexFrom ht hValid _⟩

end FormulaOutline.Formula
