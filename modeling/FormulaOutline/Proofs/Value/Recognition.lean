import FormulaOutline.Proofs.Calendar.Writing
import FormulaOutline.Value.Display
import FormulaOutline.Value.Recognition

/-!
# Values that are recognized

Dates, locations and flight numbers are read again from the texts that they are shown with, and no text
is two of them at once, so that the order in which they are looked for does not matter.

* `isTypedChar`: the characters that they are shown with, none of which is blank.
* `dateOf?_isoChars`, `locationOf?_text`, `flightOf?_toList`: each is read again from its text.
* `exclusive_recognizers`: a text is at most one of them.
* `recognizeIn`: recognizing in another order.
* `recognize_unambiguous`: what holds of every text.
-/

namespace FormulaOutline

open Calendar Geo Text Number

/-! ## Characters of values -/

/-- The characters that dates, locations and flight numbers are shown with. -/
def isTypedChar (c : Char) : Bool :=
  isDecimalDigit c || c.isUpper || c == '-' || c == '.' || c == ','

theorem isBlank_of_isTypedChar {c : Char} (h : isTypedChar c = true) : isBlank c = false :=
  isBlank_eq_false (p := isTypedChar) (by decide +kernel) h

theorem isTypedChar_of_isDigit {c : Char} (h : c.isDigit = true) : isTypedChar c = true := by
  have hBelow : c.toNat < 128 := (toNat_of_isDigit h).2.trans_lt (by decide)
  rw [isTypedChar, isDecimalDigit, if_pos hBelow, h]
  rfl

section Trim

variable {s : List Char}

theorem trimStart_eq_self (h : ∀ c ∈ s.head?, isBlank c = false) : trimStart s = s := by
  cases s with
  | nil => rfl
  | cons c s => exact List.dropWhile_cons_of_neg (by simp [h c rfl])

theorem trim_eq_self (h : ∀ c ∈ s, isTypedChar c = true) : trim s = s := by
  have hBlank : ∀ c ∈ s, isBlank c = false := fun c hc => isBlank_of_isTypedChar (h c hc)
  have hEnd : trimStart s.reverse = s.reverse :=
    trimStart_eq_self fun c hc => hBlank c (List.mem_reverse.1 (List.mem_of_mem_head? hc))
  rw [trim, trimStart_eq_self fun c hc => hBlank c (List.mem_of_mem_head? hc)]
  exact (congrArg List.reverse hEnd).trans (List.reverse_reverse s)

end Trim

/-! ## Dates -/

theorem isTypedChar_isoChars {s : List Char} {d : Date} (h : dateOf? s = some d) :
    ∀ c ∈ d.isoChars, isTypedChar c = true := by
  obtain ⟨⟨hFirst, hLast⟩, -⟩ := Date.readIso?_eq_some h
  intro c hc
  rcases (Date.readIso?_eq_some (Date.readIso?_isoChars hFirst hLast)).2 c hc with hDigit | rfl
  · exact isTypedChar_of_isDigit hDigit
  · rfl

theorem dateOf?_isoChars {s : List Char} {d : Date} (h : dateOf? s = some d) :
    dateOf? d.isoChars = some d := by
  obtain ⟨⟨hFirst, hLast⟩, -⟩ := Date.readIso?_eq_some h
  rw [dateOf?, trim_eq_self (isTypedChar_isoChars h), Date.readIso?_isoChars hFirst hLast]

/-! ## Coordinates -/

/-- What a coordinate is read as behind its sign. -/
def readDecimal? (negative : Bool) (s : List Char) : Option (Float × List Char) :=
  let (whole, after) := spanDigits s
  if whole = [] then none
  else
    match after with
    | '.' :: tail =>
        let (fraction, after) := spanDigits tail
        if fraction = [] then none
        else some (ofDecimal negative (ofDigits (whole ++ fraction)) (-fraction.length), after)
    | _ => some (ofDecimal negative (ofDigits whole) 0, after)

theorem readCoordinate?_minus (s : List Char) : readCoordinate? ('-' :: s) = readDecimal? true s := rfl

theorem readCoordinate?_unsigned {s : List Char} (h : ∀ c ∈ s.head?, c ≠ '-') :
    readCoordinate? s = readDecimal? false s := by
  rw [readCoordinate?]
  · rfl
  · rintro rest rfl
    exact h '-' rfl rfl

theorem readDecimal?_eq_some {negative : Bool} {s rest : List Char} {x : Float}
    (h : readDecimal? negative s = some (x, rest)) :
    (∃ bits, x = ofMagnitude negative bits) ∧ rest <:+ s := by
  rw [readDecimal?] at h
  simp only [spanDigits_eq] at h
  have hAfter := List.dropWhile_suffix (l := s) Char.isDigit
  split at h
  · cases h
  split at h
  · rename_i tail hPoint
    split at h
    · cases h
    · cases h
      rw [hPoint] at hAfter
      exact ⟨exists_magnitude _ _ _,
        ((List.dropWhile_suffix _).trans (List.suffix_cons '.' tail)).trans hAfter⟩
  · cases h
    exact ⟨exists_magnitude _ _ _, hAfter⟩

/-- A coordinate is made of magnitude bits, and what is behind it ends the text. -/
theorem readCoordinate?_eq_some {s rest : List Char} {x : Float}
    (h : readCoordinate? s = some (x, rest)) :
    (∃ negative bits, x = ofMagnitude negative bits) ∧ rest <:+ s := by
  by_cases hSign : ∃ t, s = '-' :: t
  · obtain ⟨t, rfl⟩ := hSign
    rw [readCoordinate?_minus] at h
    obtain ⟨hBits, hSuffix⟩ := readDecimal?_eq_some h
    exact ⟨⟨true, hBits⟩, hSuffix.trans (List.suffix_cons _ _)⟩
  · rw [readCoordinate?_unsigned] at h
    · obtain ⟨hBits, hSuffix⟩ := readDecimal?_eq_some h
      exact ⟨⟨false, hBits⟩, hSuffix⟩
    · rintro c hc rfl
      exact hSign ⟨_, List.eq_cons_of_mem_head? hc⟩

/-- A numeral is read up to a comma. -/
theorem readDecimal?_numeral {negative : Bool} {text whole fraction rest : List Char}
    (h : Numeral text whole fraction) (hRest : ∀ c ∈ rest.head?, c = ',') :
    readDecimal? negative (text ++ rest) =
      some (ofDecimal negative (ofDigits (whole ++ fraction)) (-fraction.length), rest) := by
  have hComma : ∀ c ∈ rest.head?, c.isDigit = false := by
    intro c hc
    rw [hRest c hc]
    rfl
  by_cases hNone : fraction = []
  · subst hNone
    rw [h.text_eq, decimalText, if_pos rfl, List.append_nil, readDecimal?,
      spanDigits_append h.whole hComma]
    dsimp only
    rw [if_neg h.ne_nil]
    split
    · cases hRest '.' rfl
    · rfl
  · rw [h.text_eq, decimalText, if_neg hNone, readDecimal?, List.append_assoc, List.cons_append,
      spanDigits_append h.whole fun c hc => by cases hc; rfl]
    dsimp only
    rw [if_neg h.ne_nil]
    simp only [spanDigits_append h.fraction hComma, if_neg hNone]

/-- A finite float is read from its text up to a comma. -/
theorem readCoordinate?_plain {x : Float} {rest : List Char} (hFinite : isFinite x = true)
    (hRest : ∀ c ∈ rest.head?, c = ',') :
    readCoordinate? ((plain x).toList ++ rest) = some (x, rest) := by
  obtain ⟨negative, mantissa, exponent, hDenote⟩ := isFinite_iff.1 hFinite
  obtain ⟨text, whole, fraction, hText, hNumeral, hValue⟩ := exists_numeral_plain hDenote
  have hRead : readDecimal? negative (text ++ rest) = some (x, rest) := by
    rw [readDecimal?_numeral hNumeral hRest, hValue]
  rw [hText, ← hRead]
  cases negative with
  | true => exact readCoordinate?_minus _
  | false =>
    obtain ⟨c, more, hCons, hDigit⟩ := hNumeral.exists_cons
    refine readCoordinate?_unsigned ?_
    rw [hCons]
    rintro _ ⟨⟩ rfl
    cases hDigit

theorem isTypedChar_plain {x : Float} (hFinite : isFinite x = true) :
    ∀ c ∈ (plain x).toList, isTypedChar c = true := by
  obtain ⟨negative, mantissa, exponent, hDenote⟩ := isFinite_iff.1 hFinite
  obtain ⟨text, whole, fraction, hText, hNumeral, -⟩ := exists_numeral_plain hDenote
  have hAll : ∀ c ∈ text, isTypedChar c = true := by
    intro c hc
    rcases hNumeral.digit_or_point c hc with hDigit | rfl
    · exact isTypedChar_of_isDigit hDigit
    · rfl
  rw [hText]
  cases negative with
  | true => exact List.forall_mem_cons.2 ⟨rfl, hAll⟩
  | false => exact hAll

/-! ## Locations -/

theorem locationOf?_eq_some_iff {s : List Char} {l : Location} :
    locationOf? s = some l ↔
      ∃ rest rest', readCoordinate? (trim s) = some (l.lat, rest) ∧ trimStart rest = ',' :: rest' ∧
        readCoordinate? (trimStart rest') = some (l.lng, []) ∧ l.isOnGlobe = true := by
  rw [locationOf?]
  constructor
  · intro h
    obtain ⟨⟨lat, rest⟩, hLat, h⟩ := Option.bind_eq_some_iff.1 h
    dsimp only at h
    split at h
    · rename_i rest' hComma
      obtain ⟨⟨lng, rest''⟩, hLng, h⟩ := Option.bind_eq_some_iff.1 h
      obtain ⟨⟨rfl, hGlobe⟩, hSame⟩ := Option.ite_none_right_eq_some.1 h
      cases hSame
      exact ⟨rest, rest', hLat, hComma, hLng, hGlobe⟩
    · cases h
  · rintro ⟨rest, rest', hLat, hComma, hLng, hGlobe⟩
    rw [hLat, Option.bind_eq_bind, Option.bind_some]
    dsimp only
    rw [hComma]
    show (readCoordinate? (trimStart rest')).bind _ = some l
    rw [hLng]
    exact if_pos ⟨rfl, hGlobe⟩

theorem comma_mem_of_locationOf? {s : List Char} {l : Location} (h : locationOf? s = some l) :
    ',' ∈ trim s := by
  obtain ⟨rest, rest', hLat, hComma, -⟩ := locationOf?_eq_some_iff.1 h
  have hEnd : trimStart rest <:+ trim s :=
    (List.dropWhile_suffix _).trans (readCoordinate?_eq_some hLat).2
  exact hEnd.mem (hComma ▸ List.mem_cons_self)

/-- Coordinates between bounds are not infinite. -/
theorem isFinite_of_locationOf? {s : List Char} {l : Location} (h : locationOf? s = some l) :
    isFinite l.lat = true ∧ isFinite l.lng = true := by
  obtain ⟨rest, rest', hLat, -, hLng, hGlobe⟩ := locationOf?_eq_some_iff.1 h
  obtain ⟨negative, bits, hLatBits⟩ := (readCoordinate?_eq_some hLat).1
  obtain ⟨negative', bits', hLngBits⟩ := (readCoordinate?_eq_some hLng).1
  simp only [Location.isOnGlobe, Bool.and_eq_true, decide_eq_true_eq] at hGlobe
  obtain ⟨⟨hSouth, hNorth⟩, hWest, hEast⟩ := hGlobe
  have hBelow : ∀ {negative : Bool} {bits : Nat} {x low high : Float}, x = ofMagnitude negative bits →
      ¬ low ≤ ofMagnitude true infinityBits → ¬ ofMagnitude false infinityBits ≤ high →
        low ≤ x → x ≤ high → isFinite x = true := by
    intro negative bits x low high hx hLeast hGreatest hLow hHigh
    rw [hx, isFinite_ofMagnitude_iff]
    by_contra hAbove
    rw [hx, ofMagnitude_of_le (Nat.le_of_not_lt hAbove)] at hLow hHigh
    cases negative with
    | true => exact hLeast hLow
    | false => exact hGreatest hHigh
  exact ⟨hBelow hLatBits (by decide) (by decide) hSouth hNorth,
    hBelow hLngBits (by decide) (by decide) hWest hEast⟩

theorem Geo.Location.toList_text (l : Location) :
    l.text.toList = (plain l.lat).toList ++ ',' :: (plain l.lng).toList := by
  simp [Location.text]

theorem isTypedChar_text {s : List Char} {l : Location} (h : locationOf? s = some l) :
    ∀ c ∈ l.text.toList, isTypedChar c = true := by
  obtain ⟨hLat, hLng⟩ := isFinite_of_locationOf? h
  rw [l.toList_text, List.forall_mem_append, List.forall_mem_cons]
  exact ⟨isTypedChar_plain hLat, rfl, isTypedChar_plain hLng⟩

theorem locationOf?_text {s : List Char} {l : Location} (h : locationOf? s = some l) :
    locationOf? l.text.toList = some l := by
  obtain ⟨hLat, hLng⟩ := isFinite_of_locationOf? h
  obtain ⟨-, -, -, -, -, hGlobe⟩ := locationOf?_eq_some_iff.1 h
  have hStart : trimStart (plain l.lng).toList = (plain l.lng).toList :=
    trimStart_eq_self fun c hc =>
      isBlank_of_isTypedChar (isTypedChar_plain hLng c (List.mem_of_mem_head? hc))
  refine locationOf?_eq_some_iff.2
    ⟨',' :: (plain l.lng).toList, (plain l.lng).toList, ?_, ?_, ?_, hGlobe⟩
  · rw [trim_eq_self (isTypedChar_text h), l.toList_text]
    exact readCoordinate?_plain hLat fun c hc => by cases hc; rfl
  · exact trimStart_eq_self fun c hc => by cases hc; decide
  · rw [hStart, ← List.append_nil (plain l.lng).toList]
    exact readCoordinate?_plain hLng fun c hc => by cases hc

/-! ## Flight numbers -/

/-- A flight number is a designator and a suffix, and is shown without the blank between them. -/
theorem flightOf?_eq_some_iff {s : List Char} {f : String} :
    flightOf? s = some f ↔
      ∃ a b rest, trim s = a :: b :: rest ∧ f.toList = a :: b :: dropBlank rest ∧
        isDesignatorChar a = true ∧ isDesignatorChar b = true ∧
          (a.isUpper = true ∨ b.isUpper = true) ∧ isFlightSuffix (dropBlank rest) = true := by
  rw [flightOf?]
  constructor
  · intro h
    split at h
    · rename_i a b rest hTrim
      obtain ⟨hParts, hSame⟩ := Option.ite_none_right_eq_some.1 h
      simp only [Bool.and_eq_true, Bool.or_eq_true] at hParts
      obtain ⟨⟨⟨hA, hB⟩, hUpper⟩, hSuffix⟩ := hParts
      obtain rfl := Option.some.inj hSame
      exact ⟨a, b, rest, hTrim, String.toList_ofList, hA, hB, hUpper, hSuffix⟩
    · cases h
  · rintro ⟨a, b, rest, hTrim, hText, hA, hB, hUpper, hSuffix⟩
    rw [hTrim]
    dsimp only
    rw [if_pos, ← hText, String.ofList_toList]
    simp only [Bool.and_eq_true, Bool.or_eq_true]
    exact ⟨⟨⟨hA, hB⟩, hUpper⟩, hSuffix⟩

theorem isTypedChar_of_isDesignatorChar {c : Char} (h : isDesignatorChar c = true) :
    isTypedChar c = true := by
  rcases Bool.or_eq_true_iff.1 h with hUpper | hDigit
  · simp [isTypedChar, hUpper]
  · exact isTypedChar_of_isDigit hDigit

theorem isFlightSuffix_chars {s : List Char} (h : isFlightSuffix s = true) :
    ∀ c ∈ s, isDecimalDigit c = true ∨ c.isUpper = true := by
  intro c hc
  simp only [isFlightSuffix, Bool.and_eq_true] at h
  rw [← List.takeWhile_append_dropWhile (p := isDecimalDigit) (l := s), List.mem_append] at hc
  rcases hc with hc | hc
  · exact .inl (List.mem_takeWhile_imp hc)
  · have hEnd := h.2
    split at hEnd
    · rename_i hNone
      rw [hNone] at hc
      cases hc
    · rename_i d hOne
      rw [hOne, List.mem_singleton] at hc
      exact .inr (hc ▸ hEnd)
    · cases hEnd

theorem isTypedChar_suffix {s : List Char} (h : isFlightSuffix s = true) :
    ∀ c ∈ s, isTypedChar c = true := by
  intro c hc
  rcases isFlightSuffix_chars h c hc with hDigit | hUpper
  · simp [isTypedChar, hDigit]
  · simp [isTypedChar, hUpper]

theorem isTypedChar_flight {s : List Char} {f : String} (h : flightOf? s = some f) :
    ∀ c ∈ f.toList, isTypedChar c = true := by
  obtain ⟨a, b, rest, -, hText, hA, hB, -, hSuffix⟩ := flightOf?_eq_some_iff.1 h
  rw [hText, List.forall_mem_cons, List.forall_mem_cons]
  exact ⟨isTypedChar_of_isDesignatorChar hA, isTypedChar_of_isDesignatorChar hB,
    isTypedChar_suffix hSuffix⟩

theorem dropBlank_eq_self {s : List Char} (h : ∀ c ∈ s, isTypedChar c = true) : dropBlank s = s := by
  cases s with
  | nil => rfl
  | cons c s => exact if_neg (by simp [isBlank_of_isTypedChar (h c List.mem_cons_self)])

theorem mem_dropBlank {s : List Char} {c : Char} (h : c ∈ s) (hBlank : isBlank c = false) :
    c ∈ dropBlank s := by
  cases s with
  | nil => exact h
  | cons d s =>
    rw [dropBlank]
    split
    · rename_i hOther
      refine (List.mem_cons.1 h).resolve_left ?_
      rintro rfl
      rw [hBlank] at hOther
      cases hOther
    · exact h

theorem flightOf?_toList {s : List Char} {f : String} (h : flightOf? s = some f) :
    flightOf? f.toList = some f := by
  obtain ⟨a, b, rest, -, hText, hA, hB, hUpper, hSuffix⟩ := flightOf?_eq_some_iff.1 h
  have hSolid := dropBlank_eq_self (isTypedChar_suffix hSuffix)
  refine flightOf?_eq_some_iff.2 ⟨a, b, dropBlank rest, ?_, ?_, hA, hB, hUpper, ?_⟩
  · rw [trim_eq_self (isTypedChar_flight h), hText]
  · rw [hSolid, hText]
  · rw [hSolid, hSuffix]

/-! ## Exclusion -/

section Exclusion

variable {s : List Char}

theorem dateOf?_of_locationOf? {l : Location} (h : locationOf? s = some l) : dateOf? s = none := by
  rw [Option.eq_none_iff_forall_ne_some]
  intro d hd
  rcases (Date.readIso?_eq_some hd).2 _ (comma_mem_of_locationOf? h) with hDigit | hHyphen
  · cases hDigit
  · cases hHyphen

theorem dateOf?_of_flightOf? {f : String} (h : flightOf? s = some f) : dateOf? s = none := by
  obtain ⟨a, b, rest, hTrim, -, -, -, hUpper, -⟩ := flightOf?_eq_some_iff.1 h
  have hNone : ∀ c, c.isDigit = true ∨ c = '-' → c.isUpper = false := by
    rintro c (hDigit | rfl)
    · refine decide_eq_false fun hLetter => ?_
      have hLeast : 65 ≤ c.toNat := UInt32.le_iff_toNat_le.1 hLetter.1
      have hGreatest := (toNat_of_isDigit hDigit).2
      omega
    · rfl
  rw [Option.eq_none_iff_forall_ne_some]
  intro d hd
  have hChars := (Date.readIso?_eq_some hd).2
  rw [hTrim, List.forall_mem_cons, List.forall_mem_cons] at hChars
  rw [hNone a hChars.1, hNone b hChars.2.1] at hUpper
  exact hUpper.elim (fun h => by cases h) (fun h => by cases h)

theorem locationOf?_of_flightOf? {f : String} (h : flightOf? s = some f) : locationOf? s = none := by
  obtain ⟨a, b, rest, hTrim, -, hA, hB, -, hSuffix⟩ := flightOf?_eq_some_iff.1 h
  rw [Option.eq_none_iff_forall_ne_some]
  intro l hl
  have hComma := comma_mem_of_locationOf? hl
  rw [hTrim, List.mem_cons, List.mem_cons] at hComma
  rcases hComma with rfl | rfl | hRest
  · cases hA
  · cases hB
  · rcases isFlightSuffix_chars hSuffix _ (mem_dropBlank hRest rfl) with hDigit | hUpper
    · cases hDigit
    · cases hUpper

end Exclusion

/-- What is read of a text as a date, a location or a flight number. -/
def recognizers : List (List Char → Option Value) :=
  [fun s => (dateOf? s).map .date, fun s => (locationOf? s).map .location,
    fun s => (flightOf? s).map .flightNumber]

/-- A text is at most one of them. -/
theorem exclusive_recognizers (s : List Char) :
    recognizers.Pairwise fun f g => f s = none ∨ g s = none := by
  simp only [recognizers, List.pairwise_cons, List.forall_mem_cons, List.Pairwise.nil,
    Option.map_eq_none_iff, and_true]
  cases hFlight : flightOf? s with
  | some f => simp [dateOf?_of_flightOf? hFlight, locationOf?_of_flightOf? hFlight]
  | none =>
    cases hLocation : locationOf? s with
    | some l => simp [dateOf?_of_locationOf? hLocation]
    | none => simp

/-! ## Recognizing -/

/-- Recognizing with the recognizers in another order. -/
def recognizeIn (order : List (List Char → Option Value)) (s : String) : Value :=
  let trimmed := trim s.toList
  match order.findSome? (· trimmed) with
  | some v => v
  | none =>
      match finiteOf? trimmed with
      | some x => .number x
      | none => .text s

theorem recognizeIn_recognizers (s : String) : recognizeIn recognizers s = recognize s := by
  rw [recognizeIn, recognize, recognizers]
  simp only [List.findSome?_cons]
  cases dateOf? (trim s.toList) with
  | some d => rfl
  | none =>
    cases locationOf? (trim s.toList) with
    | some l => rfl
    | none => cases flightOf? (trim s.toList) <;> rfl

/-- What is found in a list of which at most one element has something does not depend on its order. -/
theorem findSome?_of_perm {α β : Type} {f : α → Option β} {l l' : List α} (hPerm : l.Perm l')
    (h : l.Pairwise fun a b => f a = none ∨ f b = none) : l.findSome? f = l'.findSome? f := by
  induction hPerm with
  | nil => rfl
  | cons a _ ih => rw [List.findSome?_cons, List.findSome?_cons, ih (List.pairwise_cons.1 h).2]
  | swap a b l =>
    have hHeads := (List.pairwise_cons.1 h).1 a List.mem_cons_self
    simp only [List.findSome?_cons]
    rcases hHeads with hNone | hNone
    · rw [hNone]
    · rw [hNone]
  | trans hFirst _ ihFirst ihSecond =>
    have hSecond := (hFirst.pairwise_iff fun hxy => hxy.symm).1 h
    rw [ihFirst h, ihSecond hSecond]

section Again

variable {s : String}

theorem recognize_of_dateOf? {d : Date} (h : dateOf? (trim s.toList) = some d) :
    recognize s = .date d := by
  simp only [recognize, h]

theorem recognize_of_locationOf? {l : Location} (h : locationOf? (trim s.toList) = some l) :
    recognize s = .location l := by
  simp only [recognize, dateOf?_of_locationOf? h, h]

theorem recognize_of_flightOf? {f : String} (h : flightOf? (trim s.toList) = some f) :
    recognize s = .flightNumber f := by
  simp only [recognize, dateOf?_of_flightOf? h, locationOf?_of_flightOf? h, h]

end Again

/-- What is recognized in a text, whatever is looked for first. -/
structure Unambiguous (s : String) : Prop where
  /-- A date, a location or a flight number is recognized again in its own text. -/
  again : (recognize s).type? ∈ [some .date, some .location, some .flightNumber] →
    recognize (recognize s).display = recognize s
  /-- The text is at most one of them. -/
  single : recognizers.Pairwise fun f g => f s.toList = none ∨ g s.toList = none
  /-- The order in which they are looked for does not matter. -/
  order : ∀ order, order.Perm recognizers → recognizeIn order s = recognize s

/-- Recognized values are recognized again, and in one way only. -/
theorem recognize_unambiguous (s : String) : Unambiguous s where
  again hTyped := by
    cases hDate : dateOf? (trim s.toList) with
    | some d =>
      have hTrim := trim_eq_self (isTypedChar_isoChars hDate)
      rw [recognize_of_dateOf? hDate]
      refine recognize_of_dateOf? ?_
      rw [Value.display, Date.iso, String.toList_ofList, hTrim, dateOf?_isoChars hDate]
    | none =>
      cases hLocation : locationOf? (trim s.toList) with
      | some l =>
        have hTrim := trim_eq_self (isTypedChar_text hLocation)
        rw [recognize_of_locationOf? hLocation]
        refine recognize_of_locationOf? ?_
        rw [Value.display, hTrim, locationOf?_text hLocation]
      | none =>
        cases hFlight : flightOf? (trim s.toList) with
        | some f =>
          have hTrim := trim_eq_self (isTypedChar_flight hFlight)
          rw [recognize_of_flightOf? hFlight]
          refine recognize_of_flightOf? ?_
          rw [Value.display, hTrim, flightOf?_toList hFlight]
        | none =>
          simp only [recognize, hDate, hLocation, hFlight] at hTyped
          split at hTyped <;> simp [Value.type?] at hTyped
  single := exclusive_recognizers s.toList
  order tried hPerm := by
    have hExclusive := exclusive_recognizers (trim s.toList)
    rw [← recognizeIn_recognizers, recognizeIn, recognizeIn,
      findSome?_of_perm hPerm.symm hExclusive]

end FormulaOutline
