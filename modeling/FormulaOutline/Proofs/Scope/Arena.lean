import FormulaOutline.Scope.Arena
import Mathlib.Algebra.Group.Nat.Defs
import Mathlib.Data.List.Nodup

/-!
# What an arena stores

An arena is looked at through `Arena.get?` alone: each operation is described by what `get?` finds
after it.

* `Sound`: the vacant slots are exactly those without a value, and each is listed once.
* `get?_alloc_ne`, `get?_free`, `get?_modify`: an operation changes what is stored under one id.
* `generation_free`: dropping a value raises the generation of its slot, nothing else changes one.
* `mem_entries_iff`: the entries are the ids under which something is stored.
-/

namespace FormulaOutline.Arena

variable {α : Type} {a : Arena α} {id x : ScopeId} {v w : α}

/-- The vacant slots are those without a value, and each is listed once. -/
structure Sound (a : Arena α) : Prop where
  vacant_nodup : a.vacant.Nodup
  mem_vacant : ∀ i, i ∈ a.vacant ↔ ∃ g, a.slots[i]? = some ⟨g, none⟩

/-! ## Reading -/

theorem get?_eq_some_iff :
    a.get? x = some v ↔ a.slots[x.index]? = some ⟨x.generation, some v⟩ := by
  unfold get? slot?
  rcases hs : a.slots[x.index]? with _ | ⟨g, w⟩
  · simp
  · by_cases hg : g = x.generation
    · subst hg
      simp [Option.filter]
    · simp [Option.filter, hg]

theorem get?_eq_none_of_slot {s : Slot α} (hs : a.slots[x.index]? = some s)
    (h : s.generation ≠ x.generation ∨ s.value = none) : a.get? x = none := by
  cases hx : a.get? x with
  | none => rfl
  | some v =>
    rw [get?_eq_some_iff, hs] at hx
    cases hx
    simp at h

/-- Ids in use have different slots. -/
theorem eq_of_index_eq (hx : a.get? x = some v) (hid : a.get? id = some w)
    (hindex : x.index = id.index) : x = id := by
  rw [get?_eq_some_iff, hindex, get?_eq_some_iff.mp hid] at hx
  cases x
  cases id
  simp_all

theorem isLive_iff : a.isLive x = true ↔ ∃ v, a.get? x = some v := by
  rw [isLive, Option.isSome_iff_exists]

theorem sound_empty : (empty : Arena α).Sound := by
  refine ⟨List.nodup_nil, fun i => ?_⟩
  simp [empty]

theorem get?_empty (x : ScopeId) : (empty : Arena α).get? x = none := by
  cases hx : (empty : Arena α).get? x with
  | none => rfl
  | some v =>
    rw [get?_eq_some_iff] at hx
    simp [empty] at hx

/-! ## Storing a value -/

/-- What `alloc` does, in the two cases of its definition. -/
theorem alloc_cases (ha : a.Sound) (v : α) :
    (a.vacant = [] ∧
      a.alloc v = (⟨a.slots.size, 0⟩, { a with slots := a.slots.push ⟨0, some v⟩ })) ∨
    ∃ i rest g, a.vacant = i :: rest ∧ a.slots[i]? = some ⟨g, none⟩ ∧
      a.alloc v = (⟨i, g⟩, ⟨a.slots.setIfInBounds i ⟨g, some v⟩, rest⟩) := by
  unfold alloc
  cases hv : a.vacant with
  | nil => exact Or.inl ⟨rfl, rfl⟩
  | cons i rest =>
    obtain ⟨g, hg⟩ := (ha.mem_vacant i).mp (by simp [hv])
    exact Or.inr ⟨i, rest, g, rfl, hg, by simp [hg]⟩

theorem get?_alloc_self (ha : a.Sound) (v : α) : (a.alloc v).2.get? (a.alloc v).1 = some v := by
  rw [get?_eq_some_iff]
  rcases alloc_cases ha v with ⟨-, h⟩ | ⟨i, rest, g, -, hi, h⟩
  · simp [h]
  · have hlt : i < a.slots.size := (Array.getElem?_eq_some_iff.mp hi).1
    simp [h, hlt]

/-- The id of a stored value was not in use. -/
theorem get?_alloc_fresh (ha : a.Sound) (v : α) : a.get? (a.alloc v).1 = none := by
  rcases alloc_cases ha v with ⟨-, h⟩ | ⟨i, rest, g, -, hi, h⟩
  · rw [h]
    cases hx : a.get? ⟨a.slots.size, 0⟩ with
    | none => rfl
    | some w =>
      rw [get?_eq_some_iff] at hx
      simp at hx
  · rw [h]
    exact get?_eq_none_of_slot hi (Or.inr rfl)

theorem get?_alloc_ne (ha : a.Sound) (v : α) (hx : x ≠ (a.alloc v).1) :
    (a.alloc v).2.get? x = a.get? x := by
  rcases alloc_cases ha v with ⟨-, h⟩ | ⟨i, rest, g, -, hi, h⟩
  · rw [h] at hx ⊢
    by_cases hlt : x.index < a.slots.size
    · simp [get?, slot?, Array.getElem?_push_lt hlt, Array.getElem?_eq_getElem hlt]
    · have hold : a.get? x = none := by
        simp [get?, slot?, Array.getElem?_eq_none (Nat.le_of_not_lt hlt)]
      rw [hold]
      by_cases heq : x.index = a.slots.size
      · refine get?_eq_none_of_slot (s := ⟨0, some v⟩) (by simp [heq]) (Or.inl ?_)
        rintro h0
        exact hx (by rw [ScopeId.mk.injEq]; exact ⟨heq, h0.symm⟩)
      · have hge : (a.slots.push ⟨0, some v⟩).size ≤ x.index := by
          simp only [Array.size_push]
          omega
        simp [get?, slot?, Array.getElem?_eq_none hge]
  · rw [h] at hx ⊢
    have hlt : i < a.slots.size := (Array.getElem?_eq_some_iff.mp hi).1
    by_cases hix : x.index = i
    · have hg : g ≠ x.generation := by
        rintro rfl
        exact hx (by rw [← hix])
      have hold : a.get? x = none := get?_eq_none_of_slot (hix ▸ hi) (Or.inr rfl)
      rw [hold]
      refine get?_eq_none_of_slot (s := ⟨g, some v⟩) ?_ (Or.inl hg)
      simp [hix, hlt]
    · simp [get?, slot?, Array.getElem?_setIfInBounds_ne (Ne.symm hix)]

theorem get?_alloc_of_some (ha : a.Sound) (hx : a.get? x = some w) (v : α) :
    (a.alloc v).2.get? x = some w := by
  rw [get?_alloc_ne ha v, hx]
  rintro rfl
  rw [get?_alloc_fresh ha v] at hx
  cases hx

theorem Sound.alloc (ha : a.Sound) (v : α) : (a.alloc v).2.Sound := by
  rcases alloc_cases ha v with ⟨hv, h⟩ | ⟨i, rest, g, hv, hi, h⟩
  · rw [h]
    refine ⟨by simp [hv], fun j => ?_⟩
    have hj := ha.mem_vacant j
    rw [hv] at hj ⊢
    simp only [List.not_mem_nil, false_iff, not_exists] at hj ⊢
    intro g' hg'
    rcases Nat.lt_trichotomy j a.slots.size with hlt | rfl | hgt
    · rw [Array.getElem?_push_lt hlt, ← Array.getElem?_eq_getElem hlt] at hg'
      exact hj g' hg'
    · simp at hg'
    · rw [Array.getElem?_eq_none (by simp only [Array.size_push]; omega)] at hg'
      cases hg'
  · have hlt : i < a.slots.size := (Array.getElem?_eq_some_iff.mp hi).1
    have hnd := ha.vacant_nodup
    rw [hv, List.nodup_cons] at hnd
    rw [h]
    refine ⟨hnd.2, fun j => ?_⟩
    by_cases hji : j = i
    · subst hji
      simp [hnd.1, hlt]
    · have hj := ha.mem_vacant j
      rw [hv, List.mem_cons, or_iff_right hji] at hj
      simp only [Array.getElem?_setIfInBounds_ne (Ne.symm hji)]
      exact hj

/-! ## Dropping a value -/

theorem free_of_none (h : a.get? id = none) : (a.free id).2 = a := by
  simp [free, h]

theorem free_of_some (h : a.get? id = some v) :
    (a.free id).2 =
      ⟨a.slots.setIfInBounds id.index ⟨id.generation + 1, none⟩, id.index :: a.vacant⟩ := by
  simp [free, h]

theorem get?_free (x : ScopeId) :
    (a.free id).2.get? x = if x = id then none else a.get? x := by
  cases h : a.get? id with
  | none =>
    rw [free_of_none h]
    split
    · rename_i hx
      rw [hx, h]
    · rfl
  | some v =>
    rw [free_of_some h]
    have hs := get?_eq_some_iff.mp h
    have hlt : id.index < a.slots.size := (Array.getElem?_eq_some_iff.mp hs).1
    by_cases hix : x.index = id.index
    · have hnew : (⟨a.slots.setIfInBounds id.index ⟨id.generation + 1, none⟩,
          id.index :: a.vacant⟩ : Arena α).get? x = none :=
        get?_eq_none_of_slot (s := ⟨id.generation + 1, none⟩) (by simp [hix, hlt]) (Or.inr rfl)
      rw [hnew]
      split
      · rfl
      · rename_i hne
        symm
        refine get?_eq_none_of_slot (by rw [hix]; exact hs) (Or.inl ?_)
        rintro hg
        exact hne (by rw [ScopeId.mk.injEq]; exact ⟨hix, hg.symm⟩)
    · rw [if_neg (by rintro rfl; exact hix rfl)]
      simp [get?, slot?, Array.getElem?_setIfInBounds_ne (Ne.symm hix)]

theorem Sound.free (ha : a.Sound) (id : ScopeId) : (a.free id).2.Sound := by
  cases h : a.get? id with
  | none =>
    rw [free_of_none h]
    exact ha
  | some v =>
    have hs := get?_eq_some_iff.mp h
    have hlt : id.index < a.slots.size := (Array.getElem?_eq_some_iff.mp hs).1
    have hnot : id.index ∉ a.vacant := by
      rw [ha.mem_vacant, hs]
      simp
    rw [free_of_some h]
    refine ⟨List.nodup_cons.mpr ⟨hnot, ha.vacant_nodup⟩, fun j => ?_⟩
    by_cases hj : j = id.index
    · subst hj
      simp [hlt]
    · rw [List.mem_cons, or_iff_right hj, ha.mem_vacant]
      simp [Array.getElem?_setIfInBounds_ne (Ne.symm hj)]

/-! ## Changing a value -/

theorem get?_modify (f : α → α) (x : ScopeId) :
    (a.modify id f).get? x = if x = id then (a.get? id).map f else a.get? x := by
  unfold modify
  cases h : a.get? id with
  | none =>
    simp only [Option.map_none]
    split
    · rename_i hx
      rw [hx, h]
    · rfl
  | some v =>
    have hs := get?_eq_some_iff.mp h
    have hlt : id.index < a.slots.size := (Array.getElem?_eq_some_iff.mp hs).1
    simp only [Option.map_some]
    by_cases hx : x = id
    · subst hx
      rw [if_pos rfl, get?_eq_some_iff]
      simp [hlt]
    · rw [if_neg hx]
      by_cases hix : x.index = id.index
      · have hg : x.generation ≠ id.generation := by
          rintro hg
          exact hx (by rw [ScopeId.mk.injEq]; exact ⟨hix, hg⟩)
        have hold : a.get? x = none := get?_eq_none_of_slot (hix ▸ hs) (Or.inl (Ne.symm hg))
        rw [hold]
        refine get?_eq_none_of_slot (s := ⟨id.generation, some (f v)⟩) ?_ (Or.inl (Ne.symm hg))
        simp [hix, hlt]
      · simp [get?, slot?, Array.getElem?_setIfInBounds_ne (Ne.symm hix)]

theorem get?_modify_of_some (h : a.get? id = some v) (f : α → α) :
    (a.modify id f).get? id = some (f v) := by
  rw [get?_modify, if_pos rfl, h, Option.map_some]

theorem get?_modify_of_ne (hx : x ≠ id) (f : α → α) : (a.modify id f).get? x = a.get? x := by
  rw [get?_modify, if_neg hx]

theorem modify_self (a : Arena α) (id : ScopeId) : a.modify id (fun v => v) = a := by
  unfold modify
  cases h : a.get? id with
  | none => rfl
  | some v =>
    have hs := get?_eq_some_iff.mp h
    have hslots : a.slots.setIfInBounds id.index ⟨id.generation, some v⟩ = a.slots := by
      apply Array.ext_getElem?
      intro i
      by_cases hi : i = id.index
      · subst hi
        rw [hs, Array.getElem?_setIfInBounds_self_of_lt (Array.getElem?_eq_some_iff.mp hs).1]
      · rw [Array.getElem?_setIfInBounds_ne (Ne.symm hi)]
    simp only [hslots]

theorem Sound.modify (ha : a.Sound) (id : ScopeId) (f : α → α) : (a.modify id f).Sound := by
  unfold Arena.modify
  cases h : a.get? id with
  | none => exact ha
  | some v =>
    have hs := get?_eq_some_iff.mp h
    have hlt : id.index < a.slots.size := (Array.getElem?_eq_some_iff.mp hs).1
    refine ⟨ha.vacant_nodup, fun j => ?_⟩
    rw [ha.mem_vacant]
    by_cases hj : j = id.index
    · subst hj
      simp only [hs, Array.getElem?_setIfInBounds_self_of_lt hlt]
      simp
    · simp [Array.getElem?_setIfInBounds_ne (Ne.symm hj)]

/-! ## Generations -/

/-- The generation of a slot; a slot that is not there yet has the generation it will begin with. -/
def generation (a : Arena α) (i : Nat) : Nat :=
  ((a.slots[i]?).map fun s => s.generation.toNat).getD 0

theorem generation_of_get? (h : a.get? x = some v) : a.generation x.index = x.generation.toNat := by
  rw [generation, get?_eq_some_iff.mp h]
  rfl

theorem generation_alloc (ha : a.Sound) (v : α) : (a.alloc v).2.generation = a.generation := by
  funext j
  rcases alloc_cases ha v with ⟨-, h⟩ | ⟨i, rest, g, -, hi, h⟩
  · rw [h, generation, generation]
    rcases Nat.lt_trichotomy j a.slots.size with hlt | rfl | hgt
    · rw [Array.getElem?_push_lt hlt, ← Array.getElem?_eq_getElem hlt]
    · simp
    · rw [Array.getElem?_eq_none (by simp only [Array.size_push]; omega),
        Array.getElem?_eq_none (by omega)]
  · rw [h, generation, generation]
    by_cases hj : j = i
    · subst hj
      have hlt : j < a.slots.size := (Array.getElem?_eq_some_iff.mp hi).1
      rw [hi, Array.getElem?_setIfInBounds_self_of_lt hlt]
      rfl
    · rw [Array.getElem?_setIfInBounds_ne (Ne.symm hj)]

theorem generation_modify (a : Arena α) (id : ScopeId) (f : α → α) :
    (a.modify id f).generation = a.generation := by
  funext j
  unfold modify
  cases h : a.get? id with
  | none => rfl
  | some v =>
    have hid := get?_eq_some_iff.mp h
    rw [generation, generation]
    by_cases hj : j = id.index
    · subst hj
      rw [hid, Array.getElem?_setIfInBounds_self_of_lt (Array.getElem?_eq_some_iff.mp hid).1]
      rfl
    · rw [Array.getElem?_setIfInBounds_ne (Ne.symm hj)]

theorem generation_free (h : a.get? id = some v) (i : Nat) :
    (a.free id).2.generation i = if i = id.index then (id.generation + 1).toNat
      else a.generation i := by
  have hlt := (Array.getElem?_eq_some_iff.mp (get?_eq_some_iff.mp h)).1
  rw [free_of_some h, generation, generation]
  split
  · rename_i hi
    rw [hi, Array.getElem?_setIfInBounds_self_of_lt hlt]
    rfl
  · rename_i hi
    rw [Array.getElem?_setIfInBounds_ne (Ne.symm hi)]

theorem generation_lt (a : Arena α) (i : Nat) : a.generation i < 2 ^ 32 := by
  rw [generation]
  cases a.slots[i]? with
  | none => exact Nat.two_pow_pos 32
  | some slot => exact slot.generation.toNat_lt

/-- The slot of an id is vacant and has left the generation of the id. -/
def Vacated (a : Arena α) (x : ScopeId) : Prop :=
  x.index ∈ a.vacant ∧ a.generation x.index ≠ x.generation.toNat

theorem toNat_succ_ne (g : UInt32) : (g + 1).toNat ≠ g.toNat := by
  have hlt := g.toNat_lt
  rw [UInt32.toNat_add]
  simp only [UInt32.reduceToNat]
  omega

theorem vacated_free (h : a.get? id = some v) : (a.free id).2.Vacated id := by
  refine ⟨?_, ?_⟩
  · rw [free_of_some h]
    exact List.mem_cons_self
  · rw [generation_free h, if_pos rfl]
    exact toNat_succ_ne _

theorem Vacated.free (ha : a.Sound) (hx : a.Vacated x) (id : ScopeId) :
    (a.free id).2.Vacated x := by
  cases h : a.get? id with
  | none =>
    rw [free_of_none h]
    exact hx
  | some v =>
    have hix : x.index ≠ id.index := by
      intro he
      obtain ⟨g, hg⟩ := (ha.mem_vacant _).mp hx.1
      rw [he, get?_eq_some_iff.mp h] at hg
      cases hg
    refine ⟨?_, ?_⟩
    · rw [free_of_some h]
      exact List.mem_cons_of_mem _ hx.1
    · rw [generation_free h, if_neg hix]
      exact hx.2

/-- As long as generations stay, the id of a vacated slot is not in use. -/
theorem Vacated.get?_eq_none {a' : Arena α} (hx : a.Vacated x) (h : a'.generation = a.generation) :
    a'.get? x = none := by
  cases hv : a'.get? x with
  | none => rfl
  | some v => exact (hx.2 (h ▸ generation_of_get? hv)).elim

/-! ## All values -/

theorem mem_entries_iff : (x, v) ∈ a.entries ↔ a.get? x = some v := by
  rw [get?_eq_some_iff]
  simp only [entries, List.mem_filterMap, Prod.exists, List.mem_zipIdx_iff_getElem?,
    Array.getElem?_toList, Option.map_eq_some_iff, Prod.mk.injEq]
  constructor
  · rintro ⟨s, i, hs, w, hw, rfl, rfl⟩
    rw [hs, ← hw]
  · intro h
    exact ⟨_, _, h, v, rfl, rfl, rfl⟩

/-- The entries stand in the order of their slots. -/
theorem map_index_entries (a : Arena α) : a.entries.map (fun e => e.1.index) =
    (a.slots.toList.zipIdx.filter (·.1.value.isSome)).map Prod.snd := by
  rw [entries, List.map_filterMap]
  induction a.slots.toList.zipIdx with
  | nil => rfl
  | cons e rest ih =>
    obtain ⟨⟨g, value⟩, i⟩ := e
    cases value <;> simp only [List.filterMap_cons, Option.map_none, Option.map_some, ih] <;> simp

theorem nodup_entries (a : Arena α) : (a.entries.map Prod.fst).Nodup := by
  have hnd : (a.entries.map (fun e => e.1.index)).Nodup := by
    rw [map_index_entries]
    refine List.Nodup.sublist (List.filter_sublist.map _) ?_
    rw [List.zipIdx_map_snd]
    exact List.nodup_range'
  have hcomp : a.entries.map (fun e => e.1.index) =
      (a.entries.map Prod.fst).map ScopeId.index := by simp
  exact List.Nodup.of_map ScopeId.index (hcomp ▸ hnd)

theorem size_eq_length_entries (a : Arena α) : a.size = a.entries.length := by
  have h := List.countP_eq_length_filter (p := fun s : Slot α × Nat => s.1.value.isSome)
    (l := a.slots.toList.zipIdx)
  have hsize : a.size = a.slots.toList.zipIdx.countP (·.1.value.isSome) := by
    rw [size]
    conv_lhs => rw [← List.zipIdx_map_fst 0 a.slots.toList]
    rw [List.countP_map]
    rfl
  rw [hsize, h, entries]
  clear h hsize
  induction a.slots.toList.zipIdx with
  | nil => rfl
  | cons e rest ih =>
    obtain ⟨⟨g, value⟩, i⟩ := e
    cases value <;> simp [ih]

theorem size_le (a : Arena α) : a.size ≤ a.slots.size := by
  rw [size, ← Array.length_toList]
  exact List.countP_le_length

end FormulaOutline.Arena
