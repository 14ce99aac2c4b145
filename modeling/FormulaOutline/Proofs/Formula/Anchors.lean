import FormulaOutline.Proofs.Formula.Pieces
import Mathlib.Logic.Relation

/-!
# Where expressions stand

The span of an expression is put together of the spans of its tokens, through parentheses, calls, names of
arguments and fields. It is the piece of the source that the expression is read from, alone as well as
in its place.

* `Between`: spans one after the other.
* `Frames`: a span from the first to the last of some tokens.
* `Builds.frames`: the spans of formulas frame their tokens.
* `Stands`: what the tokens of an expression tell of it; `Builds.found` finds those of each part.
* `spans_anchor`: every part of an expression is read again from its span.
-/

namespace FormulaOutline.Formula

open Text Relation

/-! ## Spans in a row -/

/-- The spans stand one after the other between two offsets. -/
def Between (lo hi : Nat) : List Span → Prop
  | [] => lo ≤ hi
  | s :: rest => lo ≤ s.start ∧ s.start ≤ s.stop ∧ Between s.stop hi rest

section Between

variable {lo hi lo' hi' : Nat} {ss ss' : List Span}

theorem Between.mono (h : Between lo hi ss) (hLo : lo' ≤ lo) (hHi : hi ≤ hi') : Between lo' hi' ss := by
  induction ss generalizing lo lo' with
  | nil => exact hLo.trans (Nat.le_trans h hHi)
  | cons s rest ih => exact ⟨hLo.trans h.1, h.2.1, ih h.2.2 (Nat.le_refl _)⟩

theorem between_append :
    Between lo hi (ss ++ ss') ↔ ∃ m, Between lo m ss ∧ Between m hi ss' := by
  induction ss generalizing lo with
  | nil => exact ⟨fun h => ⟨lo, Nat.le_refl _, h⟩, fun ⟨m, hLe, h⟩ => h.mono hLe (Nat.le_refl _)⟩
  | cons s rest ih => simp only [List.cons_append, Between, ih, ← exists_and_left, and_assoc]

theorem Between.le (h : Between lo hi ss) : lo ≤ hi := by
  induction ss generalizing lo with
  | nil => exact h
  | cons s rest ih => exact h.1.trans (h.2.1.trans (ih h.2.2))

theorem Between.inside (h : Between lo hi ss) :
    ∀ s ∈ ss, lo ≤ s.start ∧ s.start ≤ s.stop ∧ s.stop ≤ hi := by
  intro s hs
  obtain ⟨before, after, rfl⟩ := List.append_of_mem hs
  obtain ⟨m, hBefore, hStart, hStop, hAfter⟩ := between_append.1 h
  exact ⟨hBefore.le.trans hStart, hStop, hAfter.le⟩

theorem Between.pairwise (h : Between lo hi ss) : ss.Pairwise fun s s' => s.stop ≤ s'.start := by
  induction ss generalizing lo with
  | nil => exact .nil
  | cons s rest ih =>
    exact List.pairwise_cons.2 ⟨fun s' hs' => (h.2.2.inside s' hs').1, ih h.2.2⟩

end Between

def spansOf (ts : List Token) : List Span := ts.map Token.span

/-- Tokens stand one after the other in their text. -/
theorem Placed.between {start : Nat} {ts : List Token} {s : List Char} (h : Placed start ts s) :
    Between start (start + byteLength s) (spansOf ts) := by
  induction h with
  | done => exact Nat.le_add_right _ _
  | @token start gap t ts s hGap hStart hStop hSolid hMore ih =>
    refine ⟨by omega, by omega, ih.mono (Nat.le_refl _) ?_⟩
    rw [byteLength_append, byteLength_append, hStop, hStart]
    omega

/-- The span begins with the first one of some tokens and ends with the last one. -/
structure Frames (s : Span) (ts : List Token) : Prop where
  first : ∃ t, ts.head? = some t ∧ t.span.start = s.start
  last : ∃ t, ts.getLast? = some t ∧ t.span.stop = s.stop

section Frames

variable {lo hi : Nat} {a b : Span} {ts us : List Token} {t : Token}

theorem frames_singleton (t : Token) : Frames t.span [t] := ⟨⟨t, rfl, rfl⟩, ⟨t, rfl, rfl⟩⟩

/-- The tokens that a span frames take it up. -/
theorem Frames.tight (h : Frames a ts) (hTokens : Between lo hi (spansOf ts)) :
    lo ≤ a.start ∧ a.stop ≤ hi ∧ Between a.start a.stop (spansOf ts) := by
  obtain ⟨⟨t, hFirst, hStart⟩, u, hLast, hStop⟩ := h
  obtain ⟨rest, rfl⟩ := List.head?_eq_some_iff.1 hFirst
  obtain ⟨front, hFront⟩ := List.getLast?_eq_some_iff.1 hLast
  have hHead : Between a.start hi (spansOf (t :: rest)) := by
    rw [← hStart]
    exact ⟨Nat.le_refl _, hTokens.2⟩
  refine ⟨hStart ▸ hTokens.1, ?_⟩
  rw [hFront, spansOf, List.map_append, between_append] at hHead ⊢
  obtain ⟨m, hFront, hLo, hLe, hHi⟩ := hHead
  exact ⟨hStop ▸ hHi, m, hFront, hLo, hLe, Nat.le_of_eq hStop⟩

theorem Frames.between (h : Frames a ts) (hTokens : Between lo hi (spansOf ts)) :
    Between lo hi [a] := by
  obtain ⟨hLo, hHi, hTight⟩ := h.tight hTokens
  exact ⟨hLo, hTight.le, hHi⟩

theorem between_tokens (ts : List Token) : Between lo hi (spansOf (ts ++ us)) ↔
    ∃ m, Between lo m (spansOf ts) ∧ Between m hi (spansOf us) := by
  rw [spansOf, List.map_append]
  exact between_append

/-- What frames tokens behind others stands behind what frames these. -/
theorem Frames.pair (h : Frames a ts) (mid : List Token) (h' : Frames b us)
    (hTokens : Between lo hi (spansOf (ts ++ (mid ++ us)))) : Between lo hi [a, b] := by
  obtain ⟨m, hLeft, hRest⟩ := (between_tokens _).1 hTokens
  obtain ⟨m', hMid, hRight⟩ := (between_tokens _).1 hRest
  have hBehind := (h'.between hRight).mono hMid.le (Nat.le_refl _)
  exact between_append.2 ⟨m, h.between hLeft, hBehind⟩

/-- A span is drawn out to the end of what stands behind it. -/
theorem Frames.to (h : Frames a ts) (mid : List Token) (h' : Frames b us)
    (hTokens : Between lo hi (spansOf (ts ++ (mid ++ us)))) : Frames (a.to b) (ts ++ (mid ++ us)) := by
  obtain ⟨-, -, hLe, hLe', -⟩ := h.pair mid h' hTokens
  obtain ⟨t, hFirst, hStart⟩ := h.first
  obtain ⟨u, hLast, hStop⟩ := h'.last
  constructor
  · exact ⟨t, by rw [List.head?_append, hFirst, Option.some_or], hStart⟩
  · refine ⟨u, by rw [List.getLast?_append, List.getLast?_append, hLast, Option.some_or, Option.some_or],
      ?_⟩
    rw [Span.to, hStop, max_eq_right (hLe.trans hLe')]

theorem frames_words (h : Frames a ts) (hTokens : Between lo hi (spansOf (ts ++ us))) :
    Frames (us.foldl (fun s u => s.to u.span) a) (ts ++ us) := by
  induction us generalizing a ts with
  | nil => rwa [List.append_nil]
  | cons u us ih =>
    rw [List.append_cons] at hTokens ⊢
    obtain ⟨m, hLeft, -⟩ := (between_tokens _).1 hTokens
    exact ih (h.to [] (frames_singleton u) hLeft) hTokens

end Frames

/-! ## Parts -/

namespace Expr

/-- The expressions in an expression that stand for themselves: the name of a field does not, nor does
the value of an argument that is left out. -/
def parts : Expr → List Expr
  | field _ o _ => [o]
  | call _ _ args => (args.filter (!·.isMissing)).map Argument.value
  | binary _ _ l r => [l, r]
  | inline _ i => [i]
  | _ => []

/-- The spans of all expressions directly in an expression. -/
def pieces : Expr → List Span
  | field _ o f => [o.span, f.span]
  | call _ _ args => args.map (·.value.span)
  | binary _ _ l r => [l.span, r.span]
  | inline _ i => [i.span]
  | _ => []

/-- An expression is another one, a part of it, a part of a part, and so on. -/
def Contains : Expr → Expr → Prop := ReflTransGen fun e x => x ∈ e.parts

theorem span_withSpan (s : Span) (e : Expr) : (e.withSpan s).span = s := by cases e <;> rfl

theorem parts_withSpan (s : Span) (e : Expr) : (e.withSpan s).parts = e.parts := by cases e <;> rfl

theorem pieces_withSpan (s : Span) (e : Expr) : (e.withSpan s).pieces = e.pieces := by
  cases e <;> rfl

end Expr

/-! ## What tokens tell of an expression -/

/-- The tokens of an expression: they are a sum, its span frames them, and the spans of what is in it
stand one after the other in its own span. -/
structure Stands (e : Expr) (ts : List Token) : Prop where
  derives : Derives (.sum e.withoutSpans) ts
  frames : Frames e.span ts
  pieces : Between e.span.start e.span.stop e.pieces

/-- The expression that a phrase of a formula stands for. -/
def Phrase.formula? : Phrase → Option Expr
  | .sum e | .product e | .operand e | .primary e => some e
  | .argument _ | .arguments _ => none

/-- The expressions that stand for themselves in a phrase. -/
def Phrase.exprs : Phrase → List Expr
  | .sum e | .product e | .operand e | .primary e => [e]
  | .argument a => if a.isMissing then [] else [a.value]
  | .arguments as => (as.filter (!·.isMissing)).map Argument.value

/-- The spans of the values of arguments. -/
def Phrase.values : Phrase → List Span
  | .argument a => [a.value.span]
  | .arguments as => as.map (·.value.span)
  | _ => []

theorem Derives.toSum {p : Phrase} {e : Expr} {ts : List Token} (h : Derives p ts)
    (hFormula : p.formula? = some e) : Derives (.sum e) ts := by
  cases p <;> cases hFormula
  · exact h
  · exact .sum h
  · exact .sum (.product h)
  · exact .sum (.product (.operand h))

theorem formula?_withoutSpans {p : Phrase} {e : Expr} (h : p.formula? = some e) :
    p.withoutSpans.formula? = some e.withoutSpans := by
  cases p <;> cases h <;> rfl

/-- The spans of formulas frame their tokens, and the values of arguments stand one after the other. -/
theorem Builds.frames {p : Phrase} {ts : List Token} {lo hi : Nat} (h : Builds p ts)
    (hTokens : Between lo hi (spansOf ts)) :
    (∀ e, p.formula? = some e → Frames e.span ts) ∧ Between lo hi p.values := by
  induction h generalizing lo hi with
  | sum _ ih | product _ ih | operand _ ih => exact ih hTokens
  | @additive l r ts us sign _ _ _ _ _ _ ihL ihR
  | @multiplicative l r ts us sign _ _ _ _ _ _ ihL ihR =>
    obtain ⟨m, hLeft, hSign⟩ := (between_tokens _).1 hTokens
    obtain ⟨m', -, hRight⟩ := (between_tokens [sign]).1 hSign
    refine ⟨?_, hTokens.le⟩
    rintro _ ⟨⟩
    exact ((ihL hLeft).1 l rfl).to [sign] ((ihR hRight).1 r rfl) hTokens
  | @field e ts dot t _ _ _ _ ih =>
    obtain ⟨m, hObject, -⟩ := (between_tokens _).1 hTokens
    refine ⟨?_, hTokens.le⟩
    rintro _ ⟨⟩
    exact ((ih hObject).1 e rfl).to [dot] (frames_singleton t) hTokens
  | string | number | reference =>
    refine ⟨?_, hTokens.le⟩
    rintro _ ⟨⟩
    exact frames_singleton _
  | @parenthesized e ts before after =>
    refine ⟨?_, hTokens.le⟩
    rintro _ ⟨⟩
    rw [Expr.span_withSpan]
    exact (frames_singleton before).to ts (frames_singleton after) hTokens
  | @name t _ ts =>
    refine ⟨?_, hTokens.le⟩
    rintro _ ⟨⟩
    exact frames_words (frames_singleton t) hTokens
  | @emptyCall t _ before after =>
    refine ⟨?_, hTokens.le⟩
    rintro _ ⟨⟩
    exact (frames_singleton t).to [before] (frames_singleton after) hTokens
  | @call t _ before _ ts after =>
    refine ⟨?_, hTokens.le⟩
    rintro _ ⟨⟩
    exact (frames_singleton t).to (before :: ts) (frames_singleton after) hTokens
  | @positional e _ _ ih => exact ⟨nofun, ((ih hTokens).1 e rfl).between hTokens⟩
  | @named first more colon e ts _ _ _ ih =>
    rw [List.append_cons, ← List.cons_append] at hTokens
    obtain ⟨m, hName, hValue⟩ := (between_tokens _).1 hTokens
    exact ⟨nofun, (((ih hValue).1 e rfl).between hValue).mono hName.le (Nat.le_refl _)⟩
  | @omitted first more colon =>
    rw [← List.cons_append] at hTokens
    obtain ⟨m, hName, hLo, hLe, hHi⟩ := (between_tokens _).1 hTokens
    exact ⟨nofun, hName.le.trans (hLo.trans hLe), Nat.le_refl _, hHi⟩
  | last _ ih => exact ⟨nofun, (ih hTokens).2⟩
  | @more a as ts comma us _ _ _ ihFirst ihMore =>
    obtain ⟨m, hFirst, hComma⟩ := (between_tokens _).1 hTokens
    obtain ⟨m', hSign, hMore⟩ := (between_tokens [comma]).1 hComma
    have hRest := (ihMore hMore).2.mono hSign.le (Nat.le_refl _)
    exact ⟨nofun, between_append.2 ⟨m, (ihFirst hFirst).2, hRest⟩⟩

section Stands

variable {p : Phrase} {e x : Expr} {ts us : List Token} {lo hi : Nat}

/-- The spans in an expression stand one after the other in the span of the expression. -/
theorem Builds.pieces (h : Builds p ts) (hTokens : Between lo hi (spansOf ts))
    (hFormula : p.formula? = some e) : Between e.span.start e.span.stop e.pieces := by
  obtain ⟨-, -, hTight⟩ := ((h.frames hTokens).1 e hFormula).tight hTokens
  induction h generalizing e lo hi with
  | sum _ ih | product _ ih | operand _ ih =>
    cases hFormula
    exact ih hTokens rfl hTight
  | @additive l r ts us sign _ _ hL _ _ hR _ _ | @multiplicative l r ts us sign _ _ hL _ _ hR _ _ =>
    cases hFormula
    obtain ⟨m, hLeft, hSign⟩ := (between_tokens _).1 hTokens
    obtain ⟨m', -, hRight⟩ := (between_tokens [sign]).1 hSign
    exact ((hL.frames hLeft).1 l rfl).pair [sign] ((hR.frames hRight).1 r rfl) hTight
  | @field e ts dot t _ hObject _ _ _ =>
    cases hFormula
    obtain ⟨m, hLeft, -⟩ := (between_tokens _).1 hTokens
    exact ((hObject.frames hLeft).1 e rfl).pair [dot] (frames_singleton t) hTight
  | string | number | reference | name | emptyCall =>
    cases hFormula
    exact hTight.le
  | @parenthesized e ts before after hBefore hInner hAfter ih =>
    cases hFormula
    rw [Expr.pieces_withSpan]
    obtain ⟨m, hOpen, hRest⟩ := (between_tokens [before]).1 hTight
    obtain ⟨m', hInside, hClose⟩ := (between_tokens _).1 hRest
    obtain ⟨hLo, hHi, hInnerTight⟩ := ((hInner.frames hInside).1 e rfl).tight hInside
    exact (ih hInside rfl hInnerTight).mono (hOpen.le.trans hLo) (hHi.trans hClose.le)
  | @call t _ before as ts after _ _ hArguments =>
    cases hFormula
    obtain ⟨m, hName, hRest⟩ := (between_tokens [t, before]).1 hTight
    obtain ⟨m', hInside, hClose⟩ := (between_tokens _).1 hRest
    exact (hArguments.frames hInside).2.mono hName.le hClose.le
  | positional | named | omitted | last | more => cases hFormula

theorem Builds.stands (h : Builds p ts) (hTokens : Between lo hi (spansOf ts))
    (hFormula : p.formula? = some e) : Stands e ts where
  derives := h.derives.toSum (formula?_withoutSpans hFormula)
  frames := (h.frames hTokens).1 e hFormula
  pieces := h.pieces hTokens hFormula

/-- Some of the tokens are those of an expression. -/
def Found (x : Expr) (ts : List Token) : Prop := ∃ us, us <:+: ts ∧ Stands x us

theorem Found.mono (h : Found x us) (hInfix : us <:+: ts) : Found x ts := by
  obtain ⟨vs, hVs, hStands⟩ := h
  exact ⟨vs, hVs.trans hInfix, hStands⟩

/-- The tokens of an expression and of all parts of its parts are there. -/
theorem found_of_parts (hStands : Stands e ts)
    (hParts : ∀ y ∈ e.parts, ∀ x, y.Contains x → Found x ts) (hx : e.Contains x) : Found x ts := by
  rcases ReflTransGen.cases_head hx with rfl | ⟨y, hy, hyx⟩
  · exact ⟨ts, List.infix_refl ts, hStands⟩
  · exact hParts y hy x hyx

theorem mem_exprs_argument {a : Argument Expr} :
    e ∈ (Phrase.argument a).exprs ↔ a.isMissing = false ∧ e = a.value := by
  rw [Phrase.exprs]
  cases a.isMissing <;> simp

theorem mem_exprs_arguments {as : List (Argument Expr)} :
    e ∈ (Phrase.arguments as).exprs ↔ ∃ a ∈ as, e ∈ (Phrase.argument a).exprs := by
  simp only [mem_exprs_argument, eq_comm (a := e)]
  simp only [Phrase.exprs, List.mem_map, List.mem_filter, Bool.not_eq_true', and_assoc]

theorem infix_behind (t : Token) : us <:+: ts ++ t :: us := ⟨ts ++ [t], [], by simp⟩

/-- Among the tokens of a phrase are those of each expression in it. -/
theorem Builds.found (h : Builds p ts) (hTokens : Between lo hi (spansOf ts)) :
    ∀ e ∈ p.exprs, ∀ x, e.Contains x → Found x ts := by
  -- What a phrase stands for is found by all its tokens, the parts of this by the phrases in it.
  have hStands : ∀ e, p.formula? = some e → Stands e ts := fun _ hFormula => h.stands hTokens hFormula
  induction h generalizing lo hi with
  | sum hPhrase ih | product hPhrase ih | operand hPhrase ih =>
    exact ih hTokens fun e hFormula => hPhrase.stands hTokens hFormula
  | @additive l r ts us sign _ _ hL _ _ hR ihL ihR
  | @multiplicative l r ts us sign _ _ hL _ _ hR ihL ihR =>
    obtain ⟨m, hLeft, hSign⟩ := (between_tokens _).1 hTokens
    obtain ⟨m', -, hRight⟩ := (between_tokens [sign]).1 hSign
    have hFoundL := ihL hLeft (fun e he => hL.stands hLeft he) l List.mem_cons_self
    have hFoundR := ihR hRight (fun e he => hR.stands hRight he) r List.mem_cons_self
    refine List.forall_mem_singleton.2 fun x hx => found_of_parts (hStands _ rfl) ?_ hx
    refine List.forall_mem_cons.2 ⟨fun x hx => ?_, List.forall_mem_singleton.2 fun x hx => ?_⟩
    · exact (hFoundL x hx).mono (List.prefix_append _ _).isInfix
    · exact (hFoundR x hx).mono (infix_behind sign)
  | @field e ts dot t _ hObject _ _ ih =>
    obtain ⟨m, hLeft, -⟩ := (between_tokens _).1 hTokens
    have hFound := ih hLeft (fun e he => hObject.stands hLeft he) e List.mem_cons_self
    refine List.forall_mem_singleton.2 fun x hx => found_of_parts (hStands _ rfl) ?_ hx
    exact List.forall_mem_singleton.2 fun x hx => (hFound x hx).mono (List.prefix_append _ _).isInfix
  | string | number | reference | name | emptyCall =>
    exact List.forall_mem_singleton.2 fun x hx =>
      found_of_parts (hStands _ rfl) (List.forall_mem_nil _) hx
  | @parenthesized e ts before after _ hInner _ ih =>
    obtain ⟨m, -, hRest⟩ := (between_tokens [before]).1 hTokens
    obtain ⟨m', hInside, -⟩ := (between_tokens _).1 hRest
    have hFound := ih hInside (fun e he => hInner.stands hInside he) e List.mem_cons_self
    refine List.forall_mem_singleton.2 fun x hx => found_of_parts (hStands _ rfl) ?_ hx
    rw [Expr.parts_withSpan]
    exact fun y hy x hx => (hFound x (.head hy hx)).mono ⟨[before], [after], by simp⟩
  | @call t _ before as ts after _ _ hArguments _ ih =>
    obtain ⟨m, -, hRest⟩ := (between_tokens [t, before]).1 hTokens
    obtain ⟨m', hInside, -⟩ := (between_tokens _).1 hRest
    have hFound := ih hInside nofun
    refine List.forall_mem_singleton.2 fun x hx => found_of_parts (hStands _ rfl) ?_ hx
    exact fun y hy x hx => (hFound y hy x hx).mono ⟨[t, before], [after], by simp⟩
  | @positional e ts hValue ih =>
    intro y hy
    rw [mem_exprs_argument] at hy
    obtain ⟨-, rfl⟩ := hy
    exact ih hTokens (fun e he => hValue.stands hTokens he) _ List.mem_cons_self
  | @named first more colon e ts _ _ hValue ih =>
    intro y hy x hx
    rw [mem_exprs_argument] at hy
    obtain ⟨-, rfl⟩ := hy
    rw [← List.cons_append] at hTokens ⊢
    obtain ⟨m, -, hColon⟩ := (between_tokens _).1 hTokens
    obtain ⟨m', -, hInside⟩ := (between_tokens [colon]).1 hColon
    have hFound := ih hInside (fun e he => hValue.stands hInside he) _ List.mem_cons_self x hx
    exact hFound.mono (infix_behind colon)
  | omitted => exact List.forall_mem_nil _
  | last _ ih =>
    intro y hy
    obtain ⟨a, ha, hArgument⟩ := mem_exprs_arguments.1 hy
    obtain rfl := List.mem_singleton.1 ha
    exact ih hTokens nofun y hArgument
  | @more a as ts comma us _ _ _ ihFirst ihMore =>
    intro y hy x hx
    obtain ⟨m, hFirst, hComma⟩ := (between_tokens _).1 hTokens
    obtain ⟨m', -, hMore⟩ := (between_tokens [comma]).1 hComma
    obtain ⟨b, hb, hArgument⟩ := mem_exprs_arguments.1 hy
    rcases List.mem_cons.1 hb with rfl | hb
    · exact (ihFirst hFirst nofun y hArgument x hx).mono (List.prefix_append _ _).isInfix
    · exact (ihMore hMore nofun y (mem_exprs_arguments.2 ⟨b, hb, hArgument⟩) x hx).mono (infix_behind comma)

end Stands

/-! ## Parts of what is read -/

/-- What the span of an expression is in the source that the expression was read from. -/
structure Anchored (source : List Char) (x : Expr) : Prop where
  /-- It starts and ends between two characters. -/
  cut : ∃ before text after, source = before ++ text ++ after ∧
    x.span.start = byteLength before ∧ x.span.stop = byteLength (before ++ text)
  /-- What is directly in the expression has its span in that of the expression. -/
  inside : ∀ s ∈ x.pieces, x.span.start ≤ s.start ∧ s.start ≤ s.stop ∧ s.stop ≤ x.span.stop
  /-- And each of these spans ends before the next one starts. -/
  ordered : x.pieces.Pairwise fun s s' => s.stop ≤ s'.start
  /-- The expression is read again from its span alone. -/
  again : ∃ y, parseExpression (lexRange source x.span.start x.span.stop) = .ok y ∧
    y.withoutSpans = x.withoutSpans

/-- Tokens of a range tell where their expression stands in the source. -/
theorem Stands.anchored {before inside after : List Char} {pre us post : List Token} {x : Expr}
    (h : Stands x us)
    (hTokens : (lexFrom (Position.start.after before) inside).tokens = pre ++ us ++ post) :
    Anchored (before ++ inside ++ after) x ∧
      byteLength before ≤ x.span.start ∧ x.span.stop ≤ byteLength (before ++ inside) := by
  obtain ⟨t, hFirst, hStart⟩ := h.frames.first
  obtain ⟨u, hLast, hStop⟩ := h.frames.last
  obtain ⟨a, text, c, rfl, hPre, hText, hAlike⟩ :=
    exists_piece hTokens hFirst hLast fun u hu => (h.derives.proper u hu).1
  rw [hStart, offset_after_start, ← byteLength_append] at hPre
  rw [hStop, offset_after_start, ← byteLength_append, ← List.append_assoc] at hText
  have hSource : before ++ (a ++ text ++ c) ++ after = before ++ a ++ text ++ (c ++ after) := by
    simp only [List.append_assoc]
  have hRange := lexRange_middle (before ++ a) text (c ++ after)
  rw [← hSource, ← hPre, ← hText] at hRange
  refine ⟨⟨⟨_, text, _, hSource, hPre, hText⟩, h.pieces.inside, h.pieces.pairwise, ?_⟩, ?_, ?_⟩
  · obtain ⟨k, hAlike⟩ := hAlike (Position.start.after (before ++ a))
    rw [hRange]
    exact parseExpression_of_derives (h.derives.alike hAlike)
  · rw [hPre, byteLength_append]
    exact Nat.le_add_right _ _
  · rw [hText, show before ++ (a ++ text ++ c) = before ++ a ++ text ++ c by simp,
      byteLength_append _ c]
    exact Nat.le_add_right _ _

/-- Whatever range of a source is read as an expression, the expression and all parts of it that stand
for themselves are anchored in the source, and the spans of all are in the range. -/
theorem spans_anchor (before inside after : List Char) {e : Expr}
    (h : parseExpression (lexRange (before ++ inside ++ after) (byteLength before)
      (byteLength (before ++ inside))) = .ok e) {x : Expr} (hx : e.Contains x) :
    Anchored (before ++ inside ++ after) x ∧
      byteLength before ≤ x.span.start ∧ x.span.stop ≤ byteLength (before ++ inside) := by
  rw [lexRange_middle] at h
  have hTokens := (lexFrom_placed (Position.start.after before) inside).between
  obtain ⟨us, ⟨pre, post, hInfix⟩, hStands⟩ :=
    (builds_of_parseExpression h).found hTokens e List.mem_cons_self x hx
  exact hStands.anchored hInfix.symm

/-- A field of an expression in parentheses. -/
def nestedField : Expr := .field ⟨13, 18, 1, 14⟩ (.name ⟨13, 16, 1, 14⟩ "x") (.string ⟨17, 18, 1, 18⟩ "y")

/-- A call in parentheses, whose first argument has a name of two words and whose second one is left
out. -/
def nestedCall : Expr :=
  .call ⟨5, 24, 1, 6⟩ "F" [⟨some "a b", nestedField, ⟨8, 18, 1, 9⟩⟩,
    ⟨some "c", .undefined ⟨22, 22, 1, 23⟩, ⟨20, 22, 1, 21⟩⟩]

/-- The field in a call that is read from the middle of a text. -/
theorem spans_anchor_nested :
    let before := "due: ".toList
    let inside := "(F(a b: (x).y, c:))".toList
    let after := " now".toList
    parseExpression (lexRange (before ++ inside ++ after) (byteLength before)
        (byteLength (before ++ inside))) = .ok nestedCall ∧
      nestedCall.parts = [nestedField] ∧ Anchored (before ++ inside ++ after) nestedField ∧
      byteLength before ≤ 13 ∧ 18 ≤ byteLength (before ++ inside) := by
  have hParse : parseExpression (lexRange ("due: ".toList ++ "(F(a b: (x).y, c:))".toList ++
      " now".toList) (byteLength "due: ".toList)
      (byteLength ("due: ".toList ++ "(F(a b: (x).y, c:))".toList))) = .ok nestedCall := by
    cbv
  exact ⟨hParse, rfl, spans_anchor _ _ _ hParse (.single List.mem_cons_self)⟩

end FormulaOutline.Formula
