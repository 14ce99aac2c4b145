import FormulaOutline.Proofs.Formula.Acceptance
import FormulaOutline.Proofs.Formula.RoundTrip
import FormulaOutline.Proofs.Formula.Rows
import FormulaOutline.Proofs.Formula.Writing

/-!
# What is read can be written

An expression that was read from a text stands for a phrase of its tokens, and these have the shapes
that are read again. So it is printable, unless one of its numbers was too large for a float. The same
holds of bullets: their keys are joined words, and their literal texts end where a formula starts.

* `Expr.numbers`: the number literals of an expression.
* `Derives.printable`: what a phrase of tokens in a row stands for is printable.
* `CutInto`: the parts that a text is cut into; `CutInto.parted` says that they are printable and apart.
* `canonical_reading`: what is read is printable, is read again from its canonical text, and that
  text is its own canonical text.
-/

namespace FormulaOutline.Formula

open Text

/-! ## Numbers -/

namespace Expr

mutual

/-- The number literals of an expression. -/
def numbers : Expr → List Float
  | string .. => []
  | number _ x => [x]
  | undefined _ => []
  | reference .. => []
  | name .. => []
  | field _ o f => numbers o ++ numbers f
  | call _ _ a => argumentNumbers a
  | binary _ _ l r => numbers l ++ numbers r
  | inline _ i => numbers i

def argumentNumbers : List (Argument Expr) → List Float
  | [] => []
  | ⟨_, v, _⟩ :: rest => numbers v ++ argumentNumbers rest

end

/-- All number literals are finite. -/
def IsFinite (e : Expr) : Prop := ∀ x ∈ e.numbers, Number.isFinite x = true

instance (e : Expr) : Decidable e.IsFinite :=
  inferInstanceAs (Decidable (∀ x ∈ e.numbers, Number.isFinite x = true))

end Expr

mutual

theorem numbers_withoutSpans : (e : Expr) → e.withoutSpans.numbers = e.numbers
  | .string .. | .number .. | .undefined _ | .reference .. | .name .. => rfl
  | .field _ o f => by
    rw [Expr.withoutSpans, Expr.numbers, Expr.numbers, numbers_withoutSpans o,
      numbers_withoutSpans f]
  | .call _ _ args => by
    rw [Expr.withoutSpans, Expr.numbers, Expr.numbers, argumentNumbers_withoutSpans args]
  | .binary _ _ l r => by
    rw [Expr.withoutSpans, Expr.numbers, Expr.numbers, numbers_withoutSpans l,
      numbers_withoutSpans r]
  | .inline _ i => by rw [Expr.withoutSpans, Expr.numbers, Expr.numbers, numbers_withoutSpans i]

theorem argumentNumbers_withoutSpans : (args : List (Argument Expr)) →
    Expr.argumentNumbers (Expr.argumentsWithoutSpans args) = Expr.argumentNumbers args
  | [] => rfl
  | ⟨_, v, _⟩ :: rest => by
    rw [Expr.argumentsWithoutSpans, Expr.argumentNumbers, Expr.argumentNumbers,
      numbers_withoutSpans v, argumentNumbers_withoutSpans rest]

end

theorem mem_argumentNumbers {args : List (Argument Expr)} {y : Float} :
    y ∈ Expr.argumentNumbers args ↔ ∃ arg ∈ args, y ∈ arg.value.numbers := by
  induction args with
  | nil => simp [Expr.argumentNumbers]
  | cons arg rest ih => simp [Expr.argumentNumbers, ih]

/-! ## Phrases -/

/-- An argument that can be written and read again. -/
structure Argument.Printable (a : Argument Expr) : Prop where
  name : ∀ n ∈ a.name, IsArgumentName n
  named : a.isMissing = true → a.name.isSome = true
  value : a.isMissing = false → a.value.Printable

/-- The number literals of what a phrase stands for. -/
def Phrase.numbers : Phrase → List Float
  | .sum e | .product e | .operand e | .primary e => e.numbers
  | .argument a => a.value.numbers
  | .arguments as => Expr.argumentNumbers as

/-- What the phrase stands for can be written and read again. -/
def Phrase.Printable : Phrase → Prop
  | .sum e | .product e | .operand e | .primary e => e.Printable
  | .argument a => a.Printable
  | .arguments as => ∀ a ∈ as, a.Printable

theorem Expr.Printable.isUndefined {e : Expr} (h : e.Printable) : e.isUndefined = false := by
  cases h <;> rfl

theorem Argument.Printable.of_value {n : Option String} {e : Expr} {s : Span}
    (hName : ∀ m ∈ n, IsArgumentName m) (h : e.Printable) : Argument.Printable ⟨n, e, s⟩ where
  name := hName
  named hGone := by
    rw [Argument.isMissing, h.isUndefined] at hGone
    cases hGone
  value _ := h

theorem printable_call {f : String} {as : List (Argument Expr)} (hName : isWord f.toList = true)
    (h : ∀ a ∈ as, a.Printable) : (Expr.call .none f as).Printable :=
  .call hName (fun a ha => (h a ha).name) (fun a ha => (h a ha).named)
    fun a ha => (h a ha).value

theorem isWord_of_identifier {t : Token} {n : String} (h : t.Shaped)
    (hKind : t.kind = .identifier n) : isWord n.toList = true := by
  obtain ⟨hWord, rfl⟩ := h.identifier n hKind
  rwa [String.toList_ofList]

/-- What a phrase of tokens in a row stands for can be written and read again. -/
theorem Derives.printable {p : Phrase} {ts : List Token} (h : Derives p ts) (hRow : Row ts)
    (hFinite : ∀ x ∈ p.numbers, Number.isFinite x = true) : p.Printable := by
  induction h with
  | sum _ ih | product _ ih | operand _ ih => exact ih hRow hFinite
  | additive _ _ _ _ ihL ihR | multiplicative _ _ _ _ ihL ihR =>
    rw [Phrase.numbers, Expr.numbers, List.forall_mem_append] at hFinite
    exact .binary (ihL hRow.left hFinite.1) (ihR hRow.right.tail hFinite.2)
  | field _ _ hName ih =>
    rw [Phrase.numbers, Expr.numbers, List.forall_mem_append] at hFinite
    exact .field (ih hRow.left hFinite.1)
      (isWord_of_identifier (hRow.shaped _ (by simp)) hName)
  | string => exact .string _ _
  | number hKind =>
    exact .number (((hRow.shaped _ List.mem_cons_self).number _ hKind).isUnsigned
      (hFinite _ List.mem_cons_self))
  | reference hKind =>
    exact .reference ((hRow.shaped _ List.mem_cons_self).reference _ hKind)
  | parenthesized _ _ _ ih => exact ih hRow.tail.left hFinite
  | name hSome hAll => exact .name (hRow.isSpaced hSome hAll)
  | emptyCall hName =>
    exact printable_call (isWord_of_identifier (hRow.shaped _ List.mem_cons_self) hName)
      (List.forall_mem_nil _)
  | call hName _ _ _ ih =>
    exact printable_call (isWord_of_identifier (hRow.shaped _ List.mem_cons_self) hName)
      (ih hRow.tail.tail.left hFinite)
  | positional _ ih => exact .of_value (by simp) (ih hRow hFinite)
  | named hKeys _ _ ih =>
    refine .of_value ?_ (ih hRow.tail.right.tail hFinite)
    rintro n ⟨⟩
    exact Row.isArgumentName (Row.left hRow) hKeys
  | omitted hKeys =>
    refine ⟨?_, fun _ => rfl, fun hGiven => ?_⟩
    · rintro n ⟨⟩
      exact Row.isArgumentName (Row.left hRow) hKeys
    · cases hGiven
  | last _ ih =>
    rw [Phrase.Printable, List.forall_mem_singleton]
    exact ih hRow (by simpa [Phrase.numbers, Expr.argumentNumbers] using hFinite)
  | more _ _ _ ihFirst ihMore =>
    rw [Phrase.numbers, Expr.argumentNumbers, List.forall_mem_append] at hFinite
    rw [Phrase.Printable, List.forall_mem_cons]
    exact ⟨ihFirst hRow.left hFinite.1, ihMore hRow.right.tail hFinite.2⟩

/-- An expression that was read can be written and read again. -/
theorem printable_of_parseExpression {p : Position} {s : List Char} {e : Expr}
    (h : parseExpression (lexFrom p s) = .ok e) (hFinite : e.IsFinite) : e.Printable := by
  rw [← printable_withoutSpans_iff]
  refine (derives_of_parseExpression h).printable (row_lexFrom p s) ?_
  rw [Phrase.numbers, numbers_withoutSpans]
  exact hFinite

/-! ## Parts -/

theorem map_eq_ok {ε α β : Type} {x : Except ε α} {f : α → β} {b : β} :
    x.map f = .ok b ↔ ∃ a, x = .ok a ∧ f a = b := by
  cases x with
  | error e => simp [Except.map]
  | ok a => simp [Except.map]

/-- Literal text ends where a formula starts, or at the end. -/
theorem brace_of_dropWhile (s : List Char) :
    ∀ c ∈ (s.dropWhile (· != '\x7b')).head?, c = '\x7b' := by
  intro c hc
  simpa using head_dropWhile s c hc

/-- The parts that a text is cut into: formulas between braces, and literal texts that end where a formula
starts, or at the end. -/
inductive CutInto : Position → List Char → List Expr → Prop
  | nothing {p} : CutInto p [] []
  | formula {p inside after e parts} : Passes false inside false →
      parseExpression (lexFrom (p.next '\x7b') inside) = .ok e →
      CutInto (p.after ('\x7b' :: inside ++ ['\x7d'])) after parts →
      CutInto p ('\x7b' :: inside ++ ['\x7d'] ++ after)
        (.inline (.between p (p.after ('\x7b' :: inside ++ ['\x7d']))) e :: parts)
  | literal {p text after parts} : text ≠ [] → '\x7b' ∉ text → (∀ c ∈ after.head?, c = '\x7b') →
      CutInto (p.after text) after parts →
      CutInto p (text ++ after) (.string (.between p (p.after text)) (String.ofList text) :: parts)

/-- The parts of a text that was read. -/
theorem cutInto_of_parseParts {p : Position} {s : List Char} {parts : List Expr}
    (h : parseParts p s = .ok parts) : CutInto p s parts := by
  induction p, s using parseParts.induct generalizing parts with
  | case1 p =>
    rw [parseParts] at h
    cases h
    exact .nothing
  | case2 p rest hNone =>
    rw [parseParts_unclosed p hNone] at h
    cases h
  | case3 p rest inside after hFound ih =>
    rw [parseParts_brace p hFound] at h
    obtain ⟨part, hPart, h⟩ := bind_eq_ok.mp h
    obtain ⟨more, hMore, hDone⟩ := bind_eq_ok.mp h
    cases hDone
    rw [parseBraced] at hPart
    obtain ⟨e, hRead, rfl⟩ := map_eq_ok.mp hPart
    rw [braced_eq hFound]
    exact .formula (passes_inside hFound) hRead (ih hMore)
  | case4 p c rest hBrace text stop =>
    rename_i ih
    rw [parseParts_text p rest hBrace] at h
    obtain ⟨more, hMore, hDone⟩ := bind_eq_ok.mp h
    cases hDone
    have hText : c :: rest = text ++ rest.dropWhile (· != '\x7b') := by
      rw [List.cons_append, List.takeWhile_append_dropWhile]
    rw [hText]
    exact .literal (List.cons_ne_nil _ _) (brace_not_mem_text rest hBrace) (brace_of_dropWhile rest)
      (ih hMore)

/-- A text has been cut into literal texts and formulas that can be written and read again. -/
structure Parted (s : List Char) (parts : List Expr) : Prop where
  printable : ∀ e ∈ parts, PrintablePart e
  apart : Apart parts
  /-- A first literal text ends where a formula starts. -/
  start : ∀ sp v, parts.head? = some (.string sp v) →
    ∃ rest, s = v.toList ++ rest ∧ ∀ c ∈ rest.head?, c = '\x7b'

theorem Parted.inline {s : List Char} {parts : List Expr} (h : Parted s parts) (span : Span)
    {e : Expr} (hPrintable : e.Printable) (t : List Char) : Parted t (.inline span e :: parts) where
  printable := List.forall_mem_cons.mpr ⟨.inline hPrintable, h.printable⟩
  apart := List.isChain_cons.mpr ⟨fun _ _ => rfl, h.apart⟩
  start sp v hHead := by cases hHead

/-- Text without braces before a formula, or before the end. -/
theorem Parted.literal {v s : List Char} {parts : List Expr} (h : Parted s parts) (span : Span)
    (hSome : v ≠ []) (hBrace : '\x7b' ∉ v) (hStop : ∀ c ∈ s.head?, c = '\x7b') :
    Parted (v ++ s) (.string span (String.ofList v) :: parts) where
  printable := by
    rw [List.forall_mem_cons]
    refine ⟨.literal (by simpa using hSome) ?_, h.printable⟩
    rwa [String.toList_ofList]
  apart := by
    refine List.isChain_cons.mpr ⟨fun e hHead => ?_, h.apart⟩
    -- Another literal text would start with a brace.
    cases h.printable e (List.mem_of_mem_head? hHead) with
    | inline => rfl
    | @literal sp w hSome hNone =>
      obtain ⟨rest, rfl, -⟩ := h.start sp w hHead
      obtain ⟨c, cs, hText⟩ := List.exists_cons_of_ne_nil (l := w.toList) (by simpa using hSome)
      rw [hText] at hNone hStop
      obtain rfl := hStop c rfl
      exact absurd List.mem_cons_self hNone
  start sp w hHead := by
    cases hHead
    refine ⟨s, ?_, hStop⟩
    rw [String.toList_ofList]

/-- What is read of a text can be written and read again. -/
theorem CutInto.parted {p : Position} {s : List Char} {parts : List Expr} (h : CutInto p s parts)
    (hFinite : ∀ e ∈ parts, e.IsFinite) : Parted s parts := by
  induction h with
  | nothing => exact ⟨List.forall_mem_nil _, List.isChain_nil, fun sp v hHead => by cases hHead⟩
  | formula _ hRead _ ih =>
    rw [List.forall_mem_cons] at hFinite
    exact (ih hFinite.2).inline _ (printable_of_parseExpression hRead hFinite.1) _
  | literal hSome hBrace hStop _ ih =>
    rw [List.forall_mem_cons] at hFinite
    exact (ih hFinite.2).literal _ hSome hBrace hStop

/-! ## Keys -/

/-- The key that is read has single spaces between its words. -/
theorem isKeyName_ofRaw {raw : List Char} (hBlank : isBlankText raw = false)
    (hChars : ∀ c ∈ raw, isKeyChar c = true) : IsKeyName (BulletKey.ofRaw raw).name := by
  rw [BulletKey.ofRaw]
  constructor
  · intro hNone
    have hWords : joinWords raw = [] := by simpa using hNone
    have hSome : words (joinWords raw) ≠ [] := by
      rw [words_joinWords, Ne, words_eq_nil_iff, hBlank]
      exact Bool.false_ne_true
    rw [hWords] at hSome
    exact hSome rfl
  · rw [String.toList_ofList, joinWords_joinWords]
  · rw [String.toList_ofList]
    intro c hc
    rcases mem_joinWords hc with rfl | hMem
    · decide
    · exact hChars c hMem

theorem splitKey_eq_some {source raw rest : List Char} (h : splitKey source = some (raw, rest)) :
    isBlankText raw = false ∧ ∀ c ∈ raw, isKeyChar c = true := by
  rw [splitKey] at h
  split at h
  · split at h
    · cases h
    · rename_i hBlank
      cases h
      exact ⟨by simpa using hBlank, fun c hc => List.mem_takeWhile_imp hc⟩
  · cases h

/-! ## Bullets -/

/-- A bullet that was read can be written and read again. -/
theorem printable_of_parseBullet {source : List Char} {b : Bullet}
    (h : parseBullet source = .ok b) (hFinite : ∀ e ∈ b.parts, e.IsFinite) :
    b.Printable ∧ b.KeepsStart := by
  cases hSplit : splitKey source with
  | none =>
    rw [parseBullet_of_keyless hSplit] at h
    obtain ⟨parts, hParts, rfl⟩ := map_eq_ok.mp h
    have hParted := (cutInto_of_parseParts hParts).parted hFinite
    refine ⟨⟨hParted.printable, hParted.apart, fun k hk => by cases hk⟩, fun s v hHead => ?_⟩
    obtain ⟨rest, rfl, hStop⟩ := hParted.start s v hHead
    exact (splitKey_append_brace hStop).mp hSplit
  | some found =>
    obtain ⟨raw, rest⟩ := found
    rw [parseBullet_of_key hSplit] at h
    obtain ⟨parts, hParts, rfl⟩ := map_eq_ok.mp h
    have hParted := (cutInto_of_parseParts hParts).parted hFinite
    obtain ⟨hBlank, hChars⟩ := splitKey_eq_some hSplit
    refine ⟨⟨hParted.printable, hParted.apart, fun k hk => ?_⟩, fun s v hHead c hc => ?_⟩
    · cases hk
      exact isKeyName_ofRaw hBlank hChars
    · obtain ⟨after, hText, -⟩ := hParted.start s v hHead
      refine head_dropWhile rest c ?_
      rw [hText, List.head?_append, hc]
      rfl

/-- A bullet that was read is read again from its text. -/
theorem parseBullet_write {b : Bullet} (h : b.Printable) (hStart : b.KeepsStart) :
    ∃ b', parseBullet b.write = .ok b' ∧ b'.withoutSpans = b.withoutSpans := by
  cases hKey : b.key with
  | none => exact (h.read_iff_of_keyless hKey).mpr hStart
  | some k => exact (h.read_iff_of_key hKey).mpr hStart

theorem writePart_withoutSpans (e : Expr) :
    Bullet.writePart e.withoutSpans = Bullet.writePart e := by
  cases e with
  | string => rfl
  | inline s i => exact write_withoutSpans (.inline s i)
  | _ => exact congrArg ('\x7b' :: · ++ ['\x7d']) (write_withoutSpans _)

/-- The text of a bullet does not depend on spans. -/
theorem Bullet.write_withoutSpans (b : Bullet) : b.withoutSpans.write = b.write := by
  have hParts : (b.parts.map Expr.withoutSpans).flatMap Bullet.writePart =
      b.parts.flatMap Bullet.writePart := by
    rw [List.flatMap_map]
    exact congrArg (List.flatMap · b.parts) (funext writePart_withoutSpans)
  obtain ⟨key, parts, span⟩ := b
  cases key with
  | none => exact hParts
  | some k => exact congrArg (k.name.toList ++ [':', ' '] ++ ·) hParts

/-! ## Canonical texts -/

/-- What is read can be written and read again, and its canonical text is its own canonical text. -/
theorem canonical_reading (source : List Char) :
    (∀ e, parseExpression (lex source) = .ok e → e.IsFinite →
      e.Printable ∧ ∃ text, canonicalExpr source = .ok text ∧
        canonicalExpr text.toList = .ok text ∧
        ∃ e', parseExpression (lex text.toList) = .ok e' ∧ e'.withoutSpans = e.withoutSpans) ∧
    ∀ b, parseBullet source = .ok b → (∀ e ∈ b.parts, e.IsFinite) →
      b.Printable ∧ b.KeepsStart ∧ ∃ text, canonicalBullet source = .ok text ∧
        canonicalBullet text.toList = .ok text ∧
        ∃ b', parseBullet text.toList = .ok b' ∧ b'.withoutSpans = b.withoutSpans := by
  constructor
  · intro e hRead hFinite
    have hPrintable := printable_of_parseExpression hRead hFinite
    obtain ⟨e', hAgain, hSame⟩ := parseExpression_write hPrintable .start
    have hText : e'.pretty = e.pretty := by
      rw [Expr.pretty, ← write_withoutSpans, hSame, write_withoutSpans, Expr.pretty]
    refine ⟨hPrintable, e.pretty, by rw [canonicalExpr, hRead, Except.map], ?_⟩
    rw [Expr.pretty, String.toList_ofList, ← Expr.pretty, canonicalExpr, lex, hAgain]
    exact ⟨congrArg Except.ok hText, e', rfl, hSame⟩
  · intro b hRead hFinite
    obtain ⟨hPrintable, hStart⟩ := printable_of_parseBullet hRead hFinite
    obtain ⟨b', hAgain, hSame⟩ := parseBullet_write hPrintable hStart
    have hText : b'.pretty = b.pretty := by
      rw [Bullet.pretty, ← Bullet.write_withoutSpans, hSame, Bullet.write_withoutSpans,
        Bullet.pretty]
    refine ⟨hPrintable, hStart, b.pretty, by rw [canonicalBullet, hRead, Except.map], ?_⟩
    rw [Bullet.pretty, String.toList_ofList, ← Bullet.pretty, canonicalBullet, hAgain]
    exact ⟨congrArg Except.ok hText, b', rfl, hSame⟩

theorem exists_ok_of_any {ε α : Type} {x : Except ε α} {p : α → Bool}
    (h : x.toOption.any p = true) : ∃ a, x = .ok a ∧ p a = true := by
  cases x with
  | error _ => cases h
  | ok a => exact ⟨a, rfl, h⟩

/-- A formula with blanks, zeros and parentheses that its canonical text leaves out. -/
def looseRate : String := "rate ( year\t2x : 2.50 )*(#[tax].rate)"

/-- A bullet with such a formula behind its key. -/
def looseNet : String := "net  price:\t\x7brate ( year\t2x : 2.50 )*(#[tax].rate)\x7d EUR"

/-- The canonical texts of a loosely written formula and of a bullet with it. -/
theorem canonical_reading_loose :
    (∃ e, parseExpression (lex looseRate.toList) = .ok e ∧ e.IsFinite ∧ e.Printable ∧
      canonicalExpr looseRate.toList = .ok "rate(year 2x: 2.5) * #[tax].rate" ∧
      canonicalExpr "rate(year 2x: 2.5) * #[tax].rate".toList =
        .ok "rate(year 2x: 2.5) * #[tax].rate") ∧
    ∃ b, parseBullet looseNet.toList = .ok b ∧ (∀ e ∈ b.parts, e.IsFinite) ∧ b.Printable ∧
      canonicalBullet looseNet.toList =
        .ok "net price: \x7brate(year 2x: 2.5) * #[tax].rate\x7d EUR" ∧
      canonicalBullet "net price: \x7brate(year 2x: 2.5) * #[tax].rate\x7d EUR".toList =
        .ok "net price: \x7brate(year 2x: 2.5) * #[tax].rate\x7d EUR" := by
  constructor
  · have hFormula : (parseExpression (lex looseRate.toList)).toOption.any
        (fun e => decide e.IsFinite) = true := by decide +kernel
    have hText : (canonicalExpr looseRate.toList).toOption =
        some "rate(year 2x: 2.5) * #[tax].rate" := by decide +kernel
    obtain ⟨e, hRead, hFinite⟩ := exists_ok_of_any hFormula
    obtain ⟨hPrintable, text, hCanonical, hAgain, -⟩ :=
      (canonical_reading looseRate.toList).1 e hRead (of_decide_eq_true hFinite)
    rw [hCanonical] at hText
    cases Option.some.inj hText
    exact ⟨e, hRead, of_decide_eq_true hFinite, hPrintable, hCanonical, hAgain⟩
  · have hBullet : (parseBullet looseNet.toList).toOption.any
        (fun b => decide (∀ e ∈ b.parts, e.IsFinite)) = true := by decide +kernel
    have hText : (canonicalBullet looseNet.toList).toOption =
        some "net price: \x7brate(year 2x: 2.5) * #[tax].rate\x7d EUR" := by decide +kernel
    obtain ⟨b, hRead, hFinite⟩ := exists_ok_of_any hBullet
    obtain ⟨hPrintable, _, text, hCanonical, hAgain, -⟩ :=
      (canonical_reading looseNet.toList).2 b hRead (of_decide_eq_true hFinite)
    rw [hCanonical] at hText
    cases Option.some.inj hText
    exact ⟨b, hRead, of_decide_eq_true hFinite, hPrintable, hCanonical, hAgain⟩
end FormulaOutline.Formula
