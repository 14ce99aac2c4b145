import FormulaOutline.Proofs.Formula.Braces
import FormulaOutline.Proofs.Formula.Names
import FormulaOutline.Proofs.Formula.Parsing
import FormulaOutline.Proofs.Formula.Writing

/-!
# What is written is read again

A printable expression is read from its canonical text, apart from the spans. So is a bullet of
such expressions and literal texts, unless its first literal text is taken for a key or loses its
blanks behind one.

* `parseExpression_write`: the text of a printable expression is read as that expression.
* `parseParts_write`: so are the parts of a bullet.
* `Bullet.Printable`, `Bullet.KeepsStart`: the bullets that are read from their texts.
* `written_is_read`: what holds of expressions and of bullets.
-/

namespace FormulaOutline.Formula

open Text

/-! ## Expressions -/

/-- A printable expression is read from its text. -/
theorem parseExpression_write {e : Expr} (h : e.Printable) (p : Position) :
    ∃ e', parseExpression (lexFrom p e.write) = .ok e' ∧ e'.withoutSpans = e.withoutSpans :=
  parseExpression_of_derives (sum_of_phrase (h.derives p))

/-! ## Parts -/

/-- Literal text without an opening brace, or a printable expression between braces. -/
inductive PrintablePart : Expr → Prop
  | literal {s v} : v ≠ "" → '\x7b' ∉ v.toList → PrintablePart (.string s v)
  | inline {s e} : e.Printable → PrintablePart (.inline s e)

/-- Whether a part is literal text. -/
def isLiteral : Expr → Bool
  | .string .. => true
  | _ => false

/-- No literal text stands next to another one. -/
def Apart (parts : List Expr) : Prop :=
  parts.IsChain fun a b => (isLiteral a && isLiteral b) = false

/-- It does not matter what a literal text says. -/
theorem Apart.literal {parts : List Expr} {s : Span} {v : String}
    (h : Apart (.string s v :: parts)) (s' : Span) (v' : String) :
    Apart (.string s' v' :: parts) := by
  cases parts with
  | nil => exact List.isChain_singleton _
  | cons e parts =>
    rw [Apart, List.isChain_cons_cons] at h ⊢
    exact h

theorem parseParts_brace (p : Position) {rest inside after : List Char}
    (h : splitInline false rest = some (inside, after)) :
    parseParts p ('\x7b' :: rest) = (do
      let part ← parseBraced p inside
      let more ← parseParts (p.after ('\x7b' :: inside ++ ['\x7d'])) after
      .ok (part :: more)) := by
  rw [parseParts]
  split
  · rename_i hNone
    rw [h] at hNone
    cases hNone
  · rename_i i a hFound
    rw [h] at hFound
    cases hFound
    rfl

theorem parseParts_text (p : Position) {c : Char} (rest : List Char) (h : c ≠ '\x7b') :
    parseParts p (c :: rest) = (do
      let text := c :: rest.takeWhile (· != '\x7b')
      let stop := p.after text
      let more ← parseParts stop (rest.dropWhile (· != '\x7b'))
      .ok (.string (.between p stop) (String.ofList text) :: more)) := by
  rw [parseParts]
  exact h

/-- The text behind an opening brace goes on behind the closing one. -/
theorem braced_eq {rest inside after : List Char}
    (h : splitInline false rest = some (inside, after)) :
    '\x7b' :: rest = '\x7b' :: inside ++ ['\x7d'] ++ after := by
  rw [List.append_assoc, List.cons_append]
  exact congrArg _ (splitInline_append h).symm

theorem parseParts_unclosed (p : Position) {rest : List Char} (h : splitInline false rest = none) :
    parseParts p ('\x7b' :: rest) = .error ⟨.unterminated, p⟩ := by
  rw [parseParts]
  split
  · rfl
  · rename_i hFound
    rw [h] at hFound
    cases hFound

theorem brace_not_mem_text {c : Char} (rest : List Char) (h : c ≠ '\x7b') :
    '\x7b' ∉ c :: rest.takeWhile (· != '\x7b') := by
  rw [List.mem_cons, not_or]
  refine ⟨Ne.symm h, fun hMem => ?_⟩
  have hOther := List.mem_takeWhile_imp hMem
  cases hOther

/-- The text of a formula between braces is read as that formula. -/
theorem parseBraced_write {e : Expr} (h : e.Printable) (s : Span) (p : Position) :
    ∃ e', parseBraced p e.write = .ok e' ∧ e'.withoutSpans = (Expr.inline s e).withoutSpans := by
  obtain ⟨e', hRead, hSame⟩ := parseExpression_write h (p.next '\x7b')
  refine ⟨.inline (.between p (p.after ('\x7b' :: e.write ++ ['\x7d']))) e', ?_, ?_⟩
  · rw [parseBraced, hRead]
    rfl
  · rw [Expr.withoutSpans, Expr.withoutSpans, hSame]

/-- The parts behind a literal text start with a brace, if there are any. -/
theorem brace_of_apart {parts : List Expr} {s : Span} {v : String}
    (hParts : ∀ e ∈ parts, PrintablePart e) (hApart : Apart (.string s v :: parts)) :
    ∀ c ∈ (parts.flatMap Bullet.writePart).head?, c = '\x7b' := by
  intro c hc
  cases parts with
  | nil => cases hc
  | cons e parts =>
    cases hParts e List.mem_cons_self with
    | literal =>
      rw [Apart, List.isChain_cons_cons] at hApart
      cases hApart.1
    | inline =>
      cases hc
      rfl

/-- A formula between braces is read before what stands behind it. -/
theorem parseParts_inline (p : Position) (s : Span) {e : Expr} (h : e.Printable)
    (rest : List Char) : ∃ e', e'.withoutSpans = (Expr.inline s e).withoutSpans ∧
      parseParts p (Bullet.writePart (.inline s e) ++ rest) = (do
        let more ← parseParts (p.after ('\x7b' :: e.write ++ ['\x7d'])) rest
        .ok (e' :: more)) := by
  obtain ⟨e', hRead, hSame⟩ := parseBraced_write h s p
  have hText : Bullet.writePart (.inline s e) ++ rest =
      '\x7b' :: (e.write ++ '\x7d' :: rest) := by
    rw [Bullet.writePart, Expr.write, List.append_assoc]
    rfl
  refine ⟨e', hSame, ?_⟩
  rw [hText, parseParts_brace p (splitInline_of_proper _ (h.derives p).proper), hRead]
  rfl

/-- Literal text is read up to the next brace. -/
theorem parseParts_literal (p : Position) {v : String} {rest : List Char} (hSome : v ≠ "")
    (hBrace : '\x7b' ∉ v.toList) (hBehind : ∀ c ∈ rest.head?, c = '\x7b') :
    parseParts p (v.toList ++ rest) = (do
      let more ← parseParts (p.after v.toList) rest
      .ok (.string (.between p (p.after v.toList)) v :: more)) := by
  obtain ⟨c, cs, hText⟩ := List.exists_cons_of_ne_nil (l := v.toList) (by simpa using hSome)
  rw [hText, List.mem_cons, not_or] at hBrace
  have hLiteral : ∀ d ∈ cs, (d != '\x7b') = true := by
    intro d hd
    exact bne_iff_ne.2 fun hSame => hBrace.2 (hSame ▸ hd)
  have hStop : ∀ d ∈ rest.head?, (d != '\x7b') = false := by
    intro d hd
    rw [hBehind d hd]
    rfl
  rw [hText, List.cons_append, parseParts_text p _ (Ne.symm hBrace.1),
    takeWhile_append_rest (Or.inr hStop), dropWhile_append_rest (Or.inr hStop),
    List.takeWhile_eq_self_iff.2 hLiteral, List.dropWhile_eq_nil_iff.2 hLiteral,
    List.nil_append, ← hText]
  dsimp only
  rw [String.ofList_toList]

/-- Printable parts are read from their texts. -/
theorem parseParts_write {parts : List Expr} (hParts : ∀ e ∈ parts, PrintablePart e)
    (hApart : Apart parts) (p : Position) :
    ∃ parts', parseParts p (parts.flatMap Bullet.writePart) = .ok parts' ∧
      parts'.map Expr.withoutSpans = parts.map Expr.withoutSpans := by
  induction parts generalizing p with
  | nil => exact ⟨[], by rw [List.flatMap_nil, parseParts], rfl⟩
  | cons e parts ih =>
    rw [List.forall_mem_cons] at hParts
    have hTail : Apart parts := List.IsChain.tail hApart
    rw [List.flatMap_cons]
    cases hParts.1 with
    | @inline s e hPrintable =>
      obtain ⟨e', hSame, hRead⟩ :=
        parseParts_inline p s hPrintable (parts.flatMap Bullet.writePart)
      obtain ⟨parts', hReadMore, hSameMore⟩ := ih hParts.2 hTail _
      refine ⟨e' :: parts', ?_, by rw [List.map_cons, List.map_cons, hSame, hSameMore]⟩
      rw [hRead, hReadMore]
      rfl
    | @literal s v hSome hBrace =>
      obtain ⟨parts', hReadMore, hSameMore⟩ := ih hParts.2 hTail (p.after v.toList)
      refine ⟨.string (.between p (p.after v.toList)) v :: parts', ?_, ?_⟩
      · rw [Bullet.writePart, parseParts_literal p hSome hBrace (brace_of_apart hParts.2 hApart),
          hReadMore]
        rfl
      · rw [List.map_cons, List.map_cons, hSameMore]
        rfl

/-! ## Keys -/

/-- The names that keys can have: their blanks are single spaces between words. -/
structure IsKeyName (n : String) : Prop where
  nonempty : n ≠ ""
  normal : joinWords n.toList = n.toList
  chars : ∀ c ∈ n.toList, isKeyChar c = true

theorem IsKeyName.not_blank {n : String} (h : IsKeyName n) : isBlankText n.toList = false := by
  rw [← Bool.not_eq_true]
  intro hBlank
  have hEmpty := h.normal
  rw [joinWords, words_eq_nil_iff.mpr hBlank] at hEmpty
  exact h.nonempty (by simpa using hEmpty.symm)

/-- A key and the space behind its colon are split off. -/
theorem splitKey_of_key {n : String} (h : IsKeyName n) (rest : List Char) :
    splitKey (n.toList ++ ':' :: rest) = some (n.toList, rest) := by
  have hStop : ∀ c ∈ (':' :: rest).head?, isKeyChar c = false := by
    intro c hc
    cases hc
    decide
  rw [splitKey, takeWhile_append_rest (Or.inr hStop), dropWhile_append_rest (Or.inr hStop),
    List.takeWhile_eq_self_iff.2 h.chars, List.dropWhile_eq_nil_iff.2 h.chars]
  simp [h.not_blank]

/-- Whether a text starts with a key is told before the first brace. -/
theorem splitKey_append_brace {s rest : List Char} (h : ∀ c ∈ rest.head?, c = '\x7b') :
    splitKey (s ++ rest) = none ↔ splitKey s = none := by
  have hStop : ∀ c ∈ rest.head?, isKeyChar c = false := by
    intro c hc
    rw [h c hc]
    decide
  rw [splitKey, splitKey, takeWhile_append_rest (Or.inr hStop),
    dropWhile_append_rest (Or.inr hStop)]
  cases hDrop : s.dropWhile isKeyChar with
  | nil =>
    cases rest with
    | nil => rfl
    | cons c rest =>
      rw [h c rfl]
      simp
  | cons c after =>
    by_cases hColon : c = ':'
    · subst hColon
      simp
    · simp [hColon]

/-! ## Bullets -/

/-- The bullets that are made of parts and a key with texts of their own. -/
structure Bullet.Printable (b : Bullet) : Prop where
  parts : ∀ e ∈ b.parts, PrintablePart e
  apart : Apart b.parts
  key : ∀ k ∈ b.key, IsKeyName k.name

/-- The first literal text stays what it is where it is written: it does not start with a key, or
it stands behind one and does not start with a blank. -/
def Bullet.KeepsStart (b : Bullet) : Prop :=
  ∀ s v, b.parts.head? = some (.string s v) →
    match b.key with
    | none => splitKey v.toList = none
    | some _ => ∀ c ∈ v.toList.head?, isInlineBlank c = false

/-- Whether the text of printable parts starts with a key is told from the first one. -/
theorem splitKey_parts_iff {parts : List Expr} (hParts : ∀ e ∈ parts, PrintablePart e)
    (hApart : Apart parts) :
    splitKey (parts.flatMap Bullet.writePart) = none ↔
      ∀ s v, parts.head? = some (.string s v) → splitKey v.toList = none := by
  cases parts with
  | nil => exact iff_of_true rfl fun s v h => nomatch h
  | cons e parts =>
    rw [List.forall_mem_cons] at hParts
    rw [List.flatMap_cons]
    cases hParts.1 with
    | @literal s v =>
      rw [Bullet.writePart, splitKey_append_brace (brace_of_apart hParts.2 hApart)]
      refine ⟨fun h s' v' hHead => ?_, fun h => h s v rfl⟩
      cases hHead
      exact h
    | inline =>
      refine iff_of_true ?_ fun s v h => nomatch h
      exact (splitKey_append_brace (s := []) (by rintro c ⟨⟩; rfl)).2 rfl

/-- Parts that do not start with a blank keep all their text behind a key. -/
theorem dropWhile_parts {parts : List Expr} (hParts : ∀ e ∈ parts, PrintablePart e)
    (hStart : ∀ s v, parts.head? = some (.string s v) →
      ∀ c ∈ v.toList.head?, isInlineBlank c = false) :
    (parts.flatMap Bullet.writePart).dropWhile isInlineBlank =
      parts.flatMap Bullet.writePart := by
  cases parts with
  | nil => rfl
  | cons e parts =>
    rw [List.flatMap_cons]
    cases hParts e List.mem_cons_self with
    | @literal s v hSome =>
      obtain ⟨c, cs, hText⟩ := List.exists_cons_of_ne_nil (l := v.toList) (by simpa using hSome)
      have hFirst := hStart s v rfl c (by rw [hText]; rfl)
      rw [Bullet.writePart, hText, List.cons_append]
      exact List.dropWhile_cons_of_neg (by rw [hFirst]; exact Bool.false_ne_true)
    | inline => rfl

/-- A first literal text that starts with a blank is not read again behind a key. -/
theorem parseParts_shortened {parts : List Expr} {s : Span} {v : String} {c : Char}
    (hParts : ∀ e ∈ parts, PrintablePart e) (hApart : Apart (.string s v :: parts))
    (hBrace : '\x7b' ∉ v.toList) (hFirst : v.toList.head? = some c)
    (hBlank : isInlineBlank c = true) (p : Position) :
    ∃ parts', parseParts p
        (((Expr.string s v :: parts).flatMap Bullet.writePart).dropWhile isInlineBlank) =
          .ok parts' ∧
      parts'.map Expr.withoutSpans ≠ (Expr.string s v :: parts).map Expr.withoutSpans := by
  have hStop : ∀ d ∈ (parts.flatMap Bullet.writePart).head?, isInlineBlank d = false := by
    intro d hd
    rw [brace_of_apart hParts hApart d hd]
    decide
  have hShorter : (v.toList.dropWhile isInlineBlank).length < v.toList.length := by
    obtain ⟨cs, hText⟩ := List.head?_eq_some_iff.1 hFirst
    rw [hText, List.dropWhile_cons_of_pos hBlank, List.length_cons]
    exact Nat.lt_succ_of_le (List.dropWhile_sublist _).length_le
  rw [List.flatMap_cons, Bullet.writePart, dropWhile_append_rest (Or.inr hStop)]
  by_cases hGone : v.toList.dropWhile isInlineBlank = []
  · -- The literal text is lost, and one part with it.
    obtain ⟨parts', hRead, hSame⟩ := parseParts_write hParts (List.IsChain.tail hApart) p
    refine ⟨parts', by rw [hGone, List.nil_append, hRead], fun hEqual => ?_⟩
    have hLength := congrArg List.length (hSame.symm.trans hEqual)
    simp at hLength
  · -- A shorter literal text is read in its place.
    let rest := String.ofList (v.toList.dropWhile isInlineBlank)
    have hLiteral : PrintablePart (.string s rest) := by
      refine .literal (by simpa [rest] using hGone) fun hMem => hBrace ?_
      rw [String.toList_ofList] at hMem
      exact (List.dropWhile_sublist _).subset hMem
    obtain ⟨parts', hRead, hSame⟩ :=
      parseParts_write (List.forall_mem_cons.2 ⟨hLiteral, hParts⟩) (hApart.literal s rest) p
    rw [List.flatMap_cons, Bullet.writePart, String.toList_ofList] at hRead
    refine ⟨parts', hRead, fun hEqual => ?_⟩
    have hHead := (List.cons.inj (hSame.symm.trans hEqual)).1
    rw [Expr.withoutSpans, Expr.withoutSpans] at hHead
    injection hHead with _ hText
    have hLength := congrArg (fun w => w.toList.length) hText
    dsimp only [rest] at hLength
    rw [String.toList_ofList] at hLength
    exact hShorter.ne hLength

theorem parseBullet_of_keyless {s : List Char} (h : splitKey s = none) :
    parseBullet s =
      (parseParts .start s).map fun parts => ⟨none, parts, spanOfSource s⟩ := by
  rw [parseBullet, h]
  rfl

theorem parseBullet_of_key {s raw rest : List Char} (h : splitKey s = some (raw, rest)) :
    parseBullet s =
      (parseParts (Position.start.after (raw ++ ':' :: rest.takeWhile isInlineBlank))
        (rest.dropWhile isInlineBlank)).map
          fun parts => ⟨some (.ofRaw raw), parts, spanOfSource s⟩ := by
  rw [parseBullet, h]
  rfl

theorem splitKey_none_of_parseBullet {s : List Char} {b : Bullet} (h : parseBullet s = .ok b)
    (hKey : b.key = none) : splitKey s = none := by
  cases hSplit : splitKey s with
  | none => rfl
  | some found =>
    obtain ⟨raw, rest⟩ := found
    rw [parseBullet_of_key hSplit] at h
    cases hParts : parseParts (Position.start.after (raw ++ ':' :: rest.takeWhile isInlineBlank))
      (rest.dropWhile isInlineBlank) with
    | error e =>
      rw [hParts] at h
      cases h
    | ok parts =>
      rw [hParts] at h
      cases h
      cases hKey

/-- A bullet without a key is read from its text exactly when the text starts with no key. -/
theorem Bullet.Printable.read_iff_of_keyless {b : Bullet} (h : b.Printable) (hKey : b.key = none) :
    (∃ b', parseBullet b.write = .ok b' ∧ b'.withoutSpans = b.withoutSpans) ↔ b.KeepsStart := by
  have hText : b.write = b.parts.flatMap Bullet.writePart := by
    rw [Bullet.write, hKey, List.nil_append]
  rw [Bullet.KeepsStart, hKey, ← splitKey_parts_iff h.parts h.apart, hText]
  constructor
  · rintro ⟨b', hRead, hSame⟩
    refine splitKey_none_of_parseBullet hRead ?_
    have hKeys := congrArg Bullet.key hSame
    rw [Bullet.withoutSpans, Bullet.withoutSpans, hKey] at hKeys
    exact Option.map_eq_none_iff.1 hKeys
  · intro hNone
    obtain ⟨parts, hRead, hSame⟩ := parseParts_write h.parts h.apart .start
    refine ⟨_, by rw [parseBullet_of_keyless hNone, hRead]; rfl, ?_⟩
    rw [Bullet.withoutSpans, Bullet.withoutSpans, hSame, hKey]

/-- A bullet with a key is read from its text exactly when no blank starts the text behind it. -/
theorem Bullet.Printable.read_iff_of_key {b : Bullet} {k : BulletKey} (h : b.Printable)
    (hKey : b.key = some k) :
    (∃ b', parseBullet b.write = .ok b' ∧ b'.withoutSpans = b.withoutSpans) ↔ b.KeepsStart := by
  have hName := h.key k hKey
  have hText : b.write = k.name.toList ++ ':' :: ' ' :: b.parts.flatMap Bullet.writePart := by
    rw [Bullet.write, hKey, List.append_assoc]
    rfl
  have hSplit := splitKey_of_key hName (' ' :: b.parts.flatMap Bullet.writePart)
  rw [← hText] at hSplit
  rw [parseBullet_of_key hSplit, List.dropWhile_cons_of_pos (by rfl), Bullet.KeepsStart, hKey]
  constructor
  · rintro ⟨b', hRead, hSame⟩ s v hHead c hFirst
    rw [← Bool.not_eq_true]
    intro hBlank
    obtain ⟨rest, hParts⟩ := List.head?_eq_some_iff.1 hHead
    have hEach := h.parts
    have hApart := h.apart
    rw [hParts] at hRead hEach hApart
    rw [List.forall_mem_cons] at hEach
    have hBrace : '\x7b' ∉ v.toList := by
      cases hEach.1
      assumption
    obtain ⟨parts', hShortened, hOther⟩ :=
      parseParts_shortened hEach.2 hApart hBrace hFirst hBlank _
    rw [hShortened] at hRead
    cases hRead
    rw [← hParts] at hOther
    exact hOther (congrArg Bullet.parts hSame)
  · intro hStart
    obtain ⟨parts, hRead, hSame⟩ := parseParts_write h.parts h.apart _
    rw [dropWhile_parts h.parts hStart]
    refine ⟨_, by rw [hRead]; rfl, ?_⟩
    rw [Bullet.withoutSpans, Bullet.withoutSpans, hSame, hKey, BulletKey.ofRaw, Option.map_some,
      Option.map_some, hName.normal, String.ofList_toList]

/-- A printable expression is read from its canonical text, apart from the spans. A printable
bullet is read from its text exactly when its first literal text stays what it is there. -/
theorem written_is_read :
    (∀ e : Expr, e.Printable →
      ∃ e', parseExpression (lex e.write) = .ok e' ∧ e'.withoutSpans = e.withoutSpans) ∧
    ∀ b : Bullet, b.Printable →
      ((∃ b', parseBullet b.write = .ok b' ∧ b'.withoutSpans = b.withoutSpans) ↔
        b.KeepsStart) := by
  refine ⟨fun e h => parseExpression_write h .start, fun b h => ?_⟩
  cases hKey : b.key with
  | none => exact h.read_iff_of_keyless hKey
  | some k => exact h.read_iff_of_key hKey

/-- The formula `(net price + 2.5) * rate(year 2:, #[tax].rate)`. -/
def taxedPrice : Expr :=
  .binary .none .mul
    (.binary .none .add (.name .none "net price")
      (.number .none (Float.ofBits 0x4004000000000000)))
    (.call .none "rate" [⟨some "year 2", .undefined .none, .none⟩,
      ⟨none, .field .none (.reference .none "tax") (.string .none "rate"), .none⟩])

theorem taxedPrice_printable : taxedPrice.Printable := by
  refine .binary (.binary (.name ?name) (.number ?number)) (.call ?function ?names ?missing ?values)
  case name => exact ⟨["net".toList, "price".toList], by decide, by decide, by decide⟩
  case number => exact ⟨_, _, rfl⟩
  case function => decide
  case names =>
    rw [List.forall_mem_cons]
    refine ⟨?_, by simp⟩
    rintro n ⟨⟩
    refine ⟨⟨["year".toList, "2".toList], by decide, ?_, by decide⟩, by decide +kernel⟩
    rw [List.forall_mem_cons, List.forall_mem_singleton]
    exact ⟨⟨by decide, by simp [isSeparator]⟩, ⟨by decide, by simp [isSeparator]⟩⟩
  case missing => decide
  case values =>
    rw [List.forall_mem_cons, List.forall_mem_cons]
    refine ⟨fun hGiven => ?_, fun _ => .field (.reference (by decide)) (by decide), by simp⟩
    cases hGiven

/-- The bullet `total: is` with a formula behind it is read from its text. The literal text
`is: 2` alone is not, for it is taken for a key and its value. -/
theorem written_is_read_total :
    (∃ e', parseExpression (lex taxedPrice.write) = .ok e' ∧
        e'.withoutSpans = taxedPrice.withoutSpans) ∧
      (∃ b', parseBullet (Bullet.write ⟨some ⟨"total", .none⟩,
          [.string .none "is ", .inline .none taxedPrice], .none⟩) = .ok b' ∧
        b'.withoutSpans = Bullet.withoutSpans ⟨some ⟨"total", .none⟩,
          [.string .none "is ", .inline .none taxedPrice], .none⟩) ∧
      ¬ ∃ b', parseBullet (Bullet.write ⟨none, [.string .none "is: 2"], .none⟩) = .ok b' ∧
        b'.withoutSpans = Bullet.withoutSpans ⟨none, [.string .none "is: 2"], .none⟩ := by
  refine ⟨written_is_read.1 _ taxedPrice_printable, ?_, ?_⟩
  · refine (written_is_read.2 _ ⟨?_, ?_, ?_⟩).2 ?_
    · rw [List.forall_mem_cons, List.forall_mem_singleton]
      exact ⟨.literal (by decide) (by decide), .inline taxedPrice_printable⟩
    · exact .cons_cons rfl (.singleton _)
    · rintro k ⟨⟩
      exact ⟨by decide, by decide, List.all_eq_true.1 (by decide)⟩
    · rintro s v ⟨⟩ c ⟨⟩
      decide
  · refine mt (written_is_read.2 _ ⟨?_, ?_, ?_⟩).1 ?_
    · rw [List.forall_mem_singleton]
      exact .literal (by decide) (by decide)
    · exact List.isChain_singleton _
    · rintro k ⟨⟩
    · intro hStart
      cases hStart .none "is: 2" rfl

end FormulaOutline.Formula
