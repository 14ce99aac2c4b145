import FormulaOutline.Cache.Key
import Mathlib.Data.List.Nodup
import Mathlib.Logic.Function.Basic

/-!
# What a cache key tells

The bytes of a text never hold the separator, so the bytes that are digested tell the namespace and
each of the parts. A key tells the digest, and so as much as the digest tells of its bytes.

* `textBytes_injective`, `separator_not_mem`: the bytes of a text.
* `keyBytes_injective`: the bytes of a namespace and parts.
* `hex_injective`: hexadecimal digits tell the bytes that they stand for.
* `CacheKey.ofParts_eq_iff`: two keys are the same if the digests of their bytes are.
-/

namespace FormulaOutline.Cache

/-! ## Bytes of texts -/

theorem textBytes_injective : Function.Injective textBytes := by
  intro s t h
  have hBytes : s.toList.utf8Encode = t.toList.utf8Encode := congrArg List.toByteArray h
  rw [← String.ofList_toList (s := s), ← String.ofList_toList (s := t), ← String.toByteArray_inj]
  exact hBytes

/-- The first byte of a character marks its length with at most five bits that are set. -/
theorem toNat_lt_of_mem_utf8EncodeChar {c : Char} {b : UInt8} (h : b ∈ String.utf8EncodeChar c) :
    b.toNat < 248 := by
  have hOfNat : ∀ n, n < 248 → (UInt8.ofNat n).toNat < 248 := fun n hn => by
    rw [UInt8.toNat_ofNat']
    omega
  simp only [String.utf8EncodeChar] at h
  split_ifs at h <;> simp only [List.mem_cons, List.not_mem_nil, or_false] at h
  · subst h
    exact hOfNat _ (by omega)
  · rcases h with rfl | rfl <;> exact hOfNat _ (by omega)
  · rcases h with rfl | rfl | rfl <;> exact hOfNat _ (by omega)
  · rcases h with rfl | rfl | rfl | rfl <;> exact hOfNat _ (by omega)

theorem separator_not_mem (s : String) : separator ∉ textBytes s := by
  intro h
  obtain ⟨c, -, hMem⟩ := List.mem_flatMap.mp h
  exact absurd (toNat_lt_of_mem_utf8EncodeChar hMem) (by decide)

/-! ## Bytes of keys -/

/-- What stands before the first separator, and what begins with it. -/
theorem split_at_separator {a a' rest rest' : List UInt8} (ha : separator ∉ a)
    (ha' : separator ∉ a') (hRest : ∀ b ∈ rest.head?, b = separator)
    (hRest' : ∀ b ∈ rest'.head?, b = separator) (h : a ++ rest = a' ++ rest') :
    a = a' ∧ rest = rest' := by
  have hTake : ∀ {x y : List UInt8}, separator ∉ x → (∀ b ∈ y.head?, b = separator) →
      (x ++ y).takeWhile (· != separator) = x := by
    intro x y hx hy
    rw [List.takeWhile_append_of_pos]
    · cases y with
      | nil => simp
      | cons b y =>
        obtain rfl := hy b rfl
        simp
    · intro b hb
      rw [bne_iff_ne]
      rintro rfl
      exact hx hb
  have hFirst : a = a' := by rw [← hTake ha hRest, h, hTake ha' hRest']
  subst hFirst
  exact ⟨rfl, List.append_cancel_left h⟩

theorem head?_parts (parts : List String) :
    ∀ b ∈ (parts.flatMap fun p => separator :: textBytes p).head?, b = separator := by
  intro b hb
  cases parts with
  | nil => cases hb
  | cons p rest => exact (Option.some.inj hb).symm

theorem parts_injective {parts parts' : List String}
    (h : (parts.flatMap fun p => separator :: textBytes p) =
      parts'.flatMap fun p => separator :: textBytes p) : parts = parts' := by
  induction parts generalizing parts' with
  | nil =>
    cases parts' with
    | nil => rfl
    | cons p rest => cases h
  | cons p rest ih =>
    cases parts' with
    | nil => cases h
    | cons p' rest' =>
      rw [List.flatMap_cons, List.flatMap_cons, List.cons_append, List.cons_append,
        List.cons.injEq] at h
      obtain ⟨hPart, hRest⟩ := split_at_separator (separator_not_mem p) (separator_not_mem p')
        (head?_parts rest) (head?_parts rest') h.2
      rw [textBytes_injective hPart, ih hRest]

/-- The bytes that are digested tell the namespace and the parts. -/
theorem keyBytes_injective {ns ns' : String} {parts parts' : List String}
    (h : keyBytes ns parts = keyBytes ns' parts') : ns = ns' ∧ parts = parts' := by
  obtain ⟨hDomain, hParts⟩ := split_at_separator (separator_not_mem ns) (separator_not_mem ns')
    (head?_parts parts) (head?_parts parts') h
  exact ⟨textBytes_injective hDomain, parts_injective hParts⟩

/-! ## Hexadecimal digits -/

/-- The number that hexadecimal digits stand for. -/
def hexValue (digits : List Char) : Nat :=
  digits.foldl (fun n c => 16 * n + "0123456789abcdef".toList.idxOf c) 0

theorem hexValue_hexByte (b : UInt8) : hexValue (hexByte b) = b.toNat := by
  have hAll : ∀ n ∈ List.range 256, hexValue (hexByte (UInt8.ofNat n)) = n := by decide +kernel
  have hValue := hAll b.toNat (List.mem_range.mpr b.toNat_lt)
  rwa [UInt8.ofNat_toNat] at hValue

theorem hexByte_injective : Function.Injective hexByte := by
  intro a b h
  rw [← UInt8.toNat_inj, ← hexValue_hexByte a, ← hexValue_hexByte b, h]

theorem length_hexByte (b : UInt8) : (hexByte b).length = 2 := by
  have hAll : ∀ n ∈ List.range 256, (hexByte (UInt8.ofNat n)).length = 2 := by decide +kernel
  have hLength := hAll b.toNat (List.mem_range.mpr b.toNat_lt)
  rwa [UInt8.ofNat_toNat] at hLength

/-- Two digits for each byte tell where a byte ends. -/
theorem flatMap_hexByte_injective {bytes bytes' : List UInt8}
    (h : bytes.flatMap hexByte = bytes'.flatMap hexByte) : bytes = bytes' := by
  have hSome : ∀ b rest, (b :: rest).flatMap hexByte ≠ [] := by
    intro b rest hNone
    have hLength := congrArg List.length (List.append_eq_nil_iff.mp hNone).1
    rw [length_hexByte] at hLength
    cases hLength
  induction bytes generalizing bytes' with
  | nil =>
    cases bytes' with
    | nil => rfl
    | cons b' rest' => exact (hSome b' rest' h.symm).elim
  | cons b rest ih =>
    cases bytes' with
    | nil => exact (hSome b rest h).elim
    | cons b' rest' =>
      obtain ⟨hByte, hRest⟩ := List.append_inj h ((length_hexByte b).trans (length_hexByte b').symm)
      rw [hexByte_injective hByte, ih hRest]

theorem hex_injective : Function.Injective hex := fun _ _ h =>
  flatMap_hexByte_injective (String.ofList_injective h)

/-! ## Keys -/

theorem CacheKey.ofParts_eq_iff {ns ns' : String} {parts parts' : List String} :
    CacheKey.ofParts ns parts = CacheKey.ofParts ns' parts' ↔
      ns = ns' ∧ sha256 (keyBytes ns parts) = sha256 (keyBytes ns' parts') := by
  rw [CacheKey.ofParts, CacheKey.ofParts, CacheKey.mk.injEq, hex_injective.eq_iff]

end FormulaOutline.Cache
