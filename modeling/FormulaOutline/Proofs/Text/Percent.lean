import FormulaOutline.Json.Reader
import FormulaOutline.Text.Percent
import Mathlib.Logic.Function.Basic

/-!
# Texts as parts of paths

A text that is made a part of a path consists of characters without a meaning of their own and of
escaped bytes. Whoever takes each escape for its byte has the bytes of the text again.

* `percentDecode?`: the bytes that a text with escapes stands for, `decodeSegment?`: the text that has
  these bytes.
* `Escaped`: texts of unreserved characters and escapes.
* `decodeSegment?_encodeSegment`, `escaped_encodeSegment`: what is written is of this form and is read
  as it was.
* `IsOrdinary`: parts of a path that stand for a place of their own. Points are not escaped, so
  `isOrdinary_encodeSegment_iff`.
-/

namespace FormulaOutline.Text

variable {s t : List Char} {c high low : Char} {b : UInt8} {keep : Char → Bool}

/-! ## Reading escapes -/

/-- The byte of two hexadecimal digits. -/
def escapedByte? (high low : Char) : Option UInt8 := do
  let h ← Json.hexValue? high
  let l ← Json.hexValue? low
  some (UInt8.ofNat (16 * h + l))

/-- The bytes that a text stands for, in which a percent sign and two digits stand for one byte. A
percent sign without two digits is refused. -/
def percentDecode? : List Char → Option (List UInt8)
  | [] => some []
  | '%' :: high :: low :: rest => do
      let b ← escapedByte? high low
      let bs ← percentDecode? rest
      some (b :: bs)
  | c :: rest =>
      if c = '%' then none else (percentDecode? rest).map (String.utf8EncodeChar c ++ ·)

/-- The text that a part of a path stands for, if there is one. -/
def decodeSegment? (s : List Char) : Option (List Char) :=
  (percentDecode? s).bind fun bs => bs.toByteArray.utf8Decode?.map Array.toList

theorem percentDecode?_cons (h : c ≠ '%') (rest : List Char) :
    percentDecode? (c :: rest) = (percentDecode? rest).map (String.utf8EncodeChar c ++ ·) := by
  simp [percentDecode?, h]

theorem percentDecode?_escape (h : escapedByte? high low = some b) (rest : List Char) :
    percentDecode? ('%' :: high :: low :: rest) = (percentDecode? rest).map (b :: ·) := by
  rw [percentDecode?, h]
  cases percentDecode? rest <;> rfl

theorem escapedByte?_upperHexDigit (b : UInt8) :
    escapedByte? (upperHexDigit (b.toNat / 16)) (upperHexDigit (b.toNat % 16)) = some b := by
  have hAll : ∀ n ∈ List.range 256,
      escapedByte? (upperHexDigit (n / 16)) (upperHexDigit (n % 16)) = some (UInt8.ofNat n) := by
    decide +kernel
  have hByte := hAll b.toNat (List.mem_range.mpr b.toNat_lt)
  rwa [UInt8.ofNat_toNat] at hByte

theorem percentDecode?_flatMap (bs : List UInt8) (rest : List Char) :
    percentDecode? (bs.flatMap percentByte ++ rest) = (percentDecode? rest).map (bs ++ ·) := by
  induction bs with
  | nil => simp
  | cons b bs ih =>
    have hByte := percentDecode?_escape (escapedByte?_upperHexDigit b) (bs.flatMap percentByte ++ rest)
    rw [List.flatMap_cons, List.append_assoc]
    exact hByte.trans (by rw [ih, Option.map_map]; rfl)

/-- Whatever is kept besides, bytes are read as they were if percent signs are not kept. -/
theorem percentDecode?_percentEncode (hKeep : keep '%' = false) (s : List Char) :
    percentDecode? (percentEncode keep s) = some (bytes s) := by
  induction s with
  | nil => rfl
  | cons c s ih =>
    have hRest : ∀ front, (percentDecode? (percentEncode keep s)).map (front ++ ·) =
        some (front ++ bytes s) := fun front => by rw [ih, Option.map_some]
    rw [percentEncode, List.flatMap_cons, ← percentEncode, bytes, List.flatMap_cons, ← bytes]
    by_cases h : keep c = true
    · have hSign : c ≠ '%' := by
        rintro rfl
        rw [hKeep] at h
        cases h
      rw [if_pos h, List.singleton_append, percentDecode?_cons hSign, hRest]
    · rw [if_neg h, percentChar, percentDecode?_flatMap, hRest, bytes, List.flatMap_singleton]

theorem utf8Decode?_bytes (s : List Char) :
    (bytes s).toByteArray.utf8Decode?.map Array.toList = some s := by
  change s.utf8Encode.utf8Decode?.map Array.toList = some s
  rw [List.utf8Decode?_utf8Encode, Option.map_some]

/-- A part of a path stands for the text that has been written. -/
theorem decodeSegment?_encodeSegment (s : List Char) : decodeSegment? (encodeSegment s) = some s := by
  rw [decodeSegment?, encodeSegment, percentDecode?_percentEncode (by decide), Option.bind_some,
    utf8Decode?_bytes]

theorem encodeSegment_injective : Function.Injective encodeSegment := by
  intro s t h
  have hSame := congrArg decodeSegment? h
  rw [decodeSegment?_encodeSegment, decodeSegment?_encodeSegment] at hSame
  exact Option.some.inj hSame

/-! ## Unreserved characters and escapes -/

/-- A digit of a byte, in capitals. -/
def isUpperHexDigit (c : Char) : Bool := c.isDigit || 'A' ≤ c && c ≤ 'F'

/-- Texts of unreserved characters and escapes. -/
inductive Escaped : List Char → Prop
  | nil : Escaped []
  | unreserved {c : Char} {rest : List Char} (hChar : isUnreserved c = true) (hRest : Escaped rest) :
      Escaped (c :: rest)
  | escape {high low : Char} {rest : List Char} (hHigh : isUpperHexDigit high = true)
      (hLow : isUpperHexDigit low = true) (hRest : Escaped rest) :
      Escaped ('%' :: high :: low :: rest)

theorem Escaped.append (hs : Escaped s) (ht : Escaped t) : Escaped (s ++ t) := by
  induction hs with
  | nil => exact ht
  | unreserved hChar _ ih => exact .unreserved hChar ih
  | escape hHigh hLow _ ih => exact .escape hHigh hLow ih

theorem isUpperHexDigit_upperHexDigit {n : Nat} (h : n < 16) :
    isUpperHexDigit (upperHexDigit n) = true := by
  have hAll : ∀ n ∈ List.range 16, isUpperHexDigit (upperHexDigit n) = true := by decide +kernel
  exact hAll n (List.mem_range.mpr h)

theorem escaped_flatMap (bs : List UInt8) : Escaped (bs.flatMap percentByte) := by
  induction bs with
  | nil => exact .nil
  | cons b bs ih =>
    have hByte : b.toNat < 256 := b.toNat_lt
    exact .escape (isUpperHexDigit_upperHexDigit (by omega)) (isUpperHexDigit_upperHexDigit (by omega)) ih

theorem escaped_encodeSegment (s : List Char) : Escaped (encodeSegment s) := by
  induction s with
  | nil => exact .nil
  | cons c s ih =>
    rw [encodeSegment, percentEncode, List.flatMap_cons, ← percentEncode, ← encodeSegment]
    by_cases h : isUnreserved c = true
    · rw [if_pos h]
      exact .unreserved h ih
    · rw [if_neg h]
      exact (escaped_flatMap _).append ih

theorem isUnreserved_of_isUpperHexDigit (h : isUpperHexDigit c = true) : isUnreserved c = true := by
  simp only [isUpperHexDigit, Bool.or_eq_true, Bool.and_eq_true, decide_eq_true_eq] at h
  have hAlphanum : c.isAlphanum = true := by
    rcases h with hDigit | ⟨hFirst, hLast⟩
    · exact Bool.or_eq_true_iff.mpr (.inr hDigit)
    · have hUpper : c.isUpper = true := decide_eq_true ⟨hFirst, Char.le_trans hLast (by decide)⟩
      exact Bool.or_eq_true_iff.mpr (.inl (Bool.or_eq_true_iff.mpr (.inl hUpper)))
  simp [isUnreserved, hAlphanum]

theorem Escaped.unreserved_or_sign (h : Escaped s) (hc : c ∈ s) : isUnreserved c = true ∨ c = '%' := by
  induction h with
  | nil => cases hc
  | unreserved hChar _ ih =>
    rcases List.mem_cons.mp hc with rfl | hc
    · exact .inl hChar
    · exact ih hc
  | escape hHigh hLow _ ih =>
    rcases List.mem_cons.mp hc with rfl | hc
    · exact .inr rfl
    · rcases List.mem_cons.mp hc with rfl | hc
      · exact .inl (isUnreserved_of_isUpperHexDigit hHigh)
      · rcases List.mem_cons.mp hc with rfl | hc
        · exact .inl (isUnreserved_of_isUpperHexDigit hLow)
        · exact ih hc

theorem mem_percentEncode (h : c ∈ percentEncode keep s) :
    keep c = true ∨ isUnreserved c = true ∨ c = '%' := by
  obtain ⟨d, -, hd⟩ := List.mem_flatMap.mp h
  split at hd
  · next hKept =>
    obtain rfl := List.mem_singleton.mp hd
    exact .inl hKept
  · exact .inr ((escaped_flatMap _).unreserved_or_sign hd)

theorem percentEncode_eq_self (h : ∀ c ∈ s, keep c = true) : percentEncode keep s = s := by
  induction s with
  | nil => rfl
  | cons c s ih =>
    rw [percentEncode, List.flatMap_cons, ← percentEncode, if_pos (h c List.mem_cons_self),
      ih fun d hd => h d (List.mem_cons_of_mem c hd), List.singleton_append]

theorem toNat_lt_of_isAlphanum (h : c.isAlphanum = true) : c.toNat < 128 := by
  have hBelow : ∀ {last : Char}, c.val ≤ last.val → last.toNat < 128 → c.toNat < 128 :=
    fun hLast => Nat.lt_of_le_of_lt (UInt32.le_iff_toNat_le.mp hLast)
  rcases Bool.or_eq_true_iff.mp h with hAlpha | hDigit
  · rcases Bool.or_eq_true_iff.mp hAlpha with hUpper | hLower
    · have hLast : c.val ≤ 'Z'.val := (of_decide_eq_true hUpper).2
      exact hBelow hLast (by decide)
    · have hLast : c.val ≤ 'z'.val := of_decide_eq_true (Bool.and_eq_true_iff.mp hLower).2
      exact hBelow hLast (by decide)
  · have hLast : c.val ≤ '9'.val := of_decide_eq_true (Bool.and_eq_true_iff.mp hDigit).2
    exact hBelow hLast (by decide)

/-- Unreserved characters are few enough to look at each of them. -/
theorem of_isUnreserved {p : Char → Bool}
    (hAll : ∀ n ∈ List.range 128, isUnreserved (Char.ofNat n) = true → p (Char.ofNat n) = true)
    (h : isUnreserved c = true) : p c = true := by
  have hSmall : c.toNat < 128 := by
    have hCases := h
    simp only [isUnreserved, Bool.or_eq_true, beq_iff_eq] at hCases
    rcases hCases with (((hAlphanum | rfl) | rfl) | rfl) | rfl
    · exact toNat_lt_of_isAlphanum hAlphanum
    all_goals decide
  have hChar := hAll c.toNat (List.mem_range.mpr hSmall)
  rw [Char.ofNat_toNat] at hChar
  exact hChar h

/-! ## Parts with a place of their own -/

/-- A part of a path that stands for a place of its own: it is not empty and does not lead to where one
is or one up. -/
structure IsOrdinary (part : List Char) : Prop where
  ne_nil : part ≠ []
  ne_point : part ≠ ['.']
  ne_points : part ≠ ['.', '.']

/-- Points are not escaped, so a part of a path is ordinary only if the text is. -/
theorem isOrdinary_encodeSegment_iff : IsOrdinary (encodeSegment s) ↔ IsOrdinary s := by
  have hNil : encodeSegment s ≠ [] ↔ s ≠ [] := encodeSegment_injective.ne_iff' rfl
  have hPoint : encodeSegment s ≠ ['.'] ↔ s ≠ ['.'] := encodeSegment_injective.ne_iff' rfl
  have hPoints : encodeSegment s ≠ ['.', '.'] ↔ s ≠ ['.', '.'] := encodeSegment_injective.ne_iff' rfl
  exact ⟨fun ⟨h, h', h''⟩ => ⟨hNil.mp h, hPoint.mp h', hPoints.mp h''⟩,
    fun ⟨h, h', h''⟩ => ⟨hNil.mpr h, hPoint.mpr h', hPoints.mpr h''⟩⟩

end FormulaOutline.Text
