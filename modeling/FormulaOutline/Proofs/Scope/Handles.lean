import FormulaOutline.Proofs.Scope.Arena
import Mathlib.Data.Finmap

/-!
# Arenas as maps under new handles

An arena uses its slots again, yet it answers every run of calls like a finite map whose keys are
given out once and never again, as long as no slot is freed so often that its generations have run
through all of their values.

* `Counted`: an arena with the number of its values, kept from call to call.
* `Handles`: the map, with all the ids that it has given out; `Handles.Step` is one call on it.
* `Matches`: what every run keeps. An id that is no longer in use is behind the generation of its
  slot, and the generation of a slot is the number of times it has been freed.
* `Shows`: everything an arena tells, told by the map.
* `Counted.exists_run_shows`: a run of calls on an arena is a run of the map.
-/

namespace FormulaOutline.Arena

variable {α : Type}

/-! ## Calls -/

/-- A call that changes an arena. -/
inductive Call (α : Type)
  | alloc (v : α)
  | free (id : ScopeId)
deriving DecidableEq, Repr

/-- What a call is answered with. -/
inductive Reply (α : Type)
  | given (id : ScopeId)
  | freed (v : Option α)
deriving DecidableEq, Repr

/-- An arena with the number of its values. -/
structure Counted (α : Type) where
  arena : Arena α
  live : Nat

namespace Counted

def empty : Counted α := ⟨.empty, 0⟩

/-- The answer to a call, and the arena after it. -/
def respond (c : Counted α) : Call α → Reply α × Counted α
  | .alloc v => (.given (c.arena.alloc v).1, ⟨(c.arena.alloc v).2, c.live + 1⟩)
  | .free id =>
      match c.arena.free id with
      | (none, a) => (.freed none, ⟨a, c.live⟩)
      | (some v, a) => (.freed (some v), ⟨a, c.live - 1⟩)

/-- The calls of a run with their answers. -/
def trace (c : Counted α) : List (Call α) → List (Call α × Reply α)
  | [] => []
  | call :: rest => (call, (c.respond call).1) :: (c.respond call).2.trace rest

/-- The arena after a run of calls. -/
def after (c : Counted α) : List (Call α) → Counted α
  | [] => c
  | call :: rest => (c.respond call).2.after rest

theorem length_trace (c : Counted α) (calls : List (Call α)) :
    (c.trace calls).length = calls.length := by
  induction calls generalizing c with
  | nil => rfl
  | cons call rest ih => rw [trace, List.length_cons, ih, List.length_cons]

variable {c : Counted α} {id : ScopeId} {v : α}

theorem respond_free_of_none (h : c.arena.get? id = none) :
    c.respond (.free id) = (.freed none, c) := by
  have hfree : c.arena.free id = (none, c.arena) := by
    rw [Arena.free, h]
  rw [respond, hfree]

theorem respond_free_of_some (h : c.arena.get? id = some v) :
    c.respond (.free id) = (.freed (some v), ⟨(c.arena.free id).2, c.live - 1⟩) := by
  have hfree : c.arena.free id = (some v, (c.arena.free id).2) := by
    rw [Arena.free, h]
  rw [respond, hfree]

end Counted

/-- The call has dropped a value of slot `i`. -/
def dropsAt (i : Nat) : Call α × Reply α → Bool
  | (.free id, .freed (some _)) => i == id.index
  | _ => false

/-- How often slot `i` has been freed in a run. -/
def frees (i : Nat) (t : List (Call α × Reply α)) : Nat := t.countP (dropsAt i)

theorem frees_cons (i : Nat) (e : Call α × Reply α) (t : List (Call α × Reply α)) :
    frees i (e :: t) = frees i [e] + frees i t := by
  rw [← List.singleton_append]
  exact List.countP_append

theorem frees_freed (i : Nat) (id : ScopeId) (v : α) :
    frees i [(.free id, .freed (some v))] = if i = id.index then 1 else 0 := by
  simp only [frees, dropsAt, List.countP_singleton, beq_iff_eq]

/-! ## The map -/

/-- A map from handles to values, with all the handles that it has given out, the last one first. -/
structure Handles (α : Type) where
  given : List ScopeId
  held : Finmap fun _ : ScopeId => α

namespace Handles

def empty : Handles α := ⟨[], ∅⟩

/-- One call. A value is stored under a handle that has not been given out before; what is dropped
is told once, and nothing is stored under that handle any more. -/
inductive Step : Handles α → Call α → Reply α → Handles α → Prop
  | alloc (h : Handles α) (v : α) (id : ScopeId) (hNew : id ∉ h.given) :
      Step h (.alloc v) (.given id) ⟨id :: h.given, h.held.insert id v⟩
  | free (h : Handles α) (id : ScopeId) :
      Step h (.free id) (.freed (h.held.lookup id)) ⟨h.given, h.held.erase id⟩

/-- Any number of calls. -/
inductive Run : Handles α → List (Call α × Reply α) → Handles α → Prop
  | nil (h : Handles α) : Run h [] h
  | cons {h h' h'' : Handles α} {call : Call α} {reply : Reply α} {t : List (Call α × Reply α)}
      (hStep : Step h call reply h') (hRun : Run h' t h'') : Run h ((call, reply) :: t) h''

theorem card_keys_insert {h : Handles α} {id : ScopeId} (hid : id ∉ h.held) (v : α) :
    (h.held.insert id v).keys.card = h.held.keys.card + 1 := by
  have hkeys : (h.held.insert id v).keys = insert id h.held.keys := by
    ext x
    rw [Finmap.mem_keys, Finmap.mem_insert, Finset.mem_insert, Finmap.mem_keys]
  rw [hkeys, Finset.card_insert_of_notMem (by rwa [Finmap.mem_keys])]

theorem lookup_insert_eq (h : Handles α) (id x : ScopeId) (v : α) :
    (h.held.insert id v).lookup x = if x = id then some v else h.held.lookup x := by
  split
  · rename_i hx
    rw [hx, Finmap.lookup_insert]
  · rename_i hx
    rw [Finmap.lookup_insert_of_ne _ hx]

theorem lookup_erase_eq (h : Handles α) (id x : ScopeId) :
    (h.held.erase id).lookup x = if x = id then none else h.held.lookup x := by
  split
  · rename_i hx
    rw [hx, Finmap.lookup_erase]
  · rename_i hx
    rw [Finmap.lookup_erase_ne hx]

end Handles

/-! ## What a run keeps -/

/-- The arena stores what the map holds, after each slot `i` has been freed `n i` times. -/
structure Matches (c : Counted α) (h : Handles α) (n : Nat → Nat) : Prop where
  sound : c.arena.Sound
  get?_eq : ∀ x, c.arena.get? x = h.held.lookup x
  live_eq : c.live = h.held.keys.card
  generation_eq : ∀ i, c.arena.generation i = n i
  index_lt : ∀ x ∈ h.given, x.index < c.arena.slots.size
  /-- An id that is no longer in use is behind its slot. -/
  held_or_past : ∀ x ∈ h.given, x ∈ h.held ∨ x.generation.toNat < c.arena.generation x.index

namespace Matches

variable {c : Counted α} {h : Handles α} {n : Nat → Nat} {id : ScopeId} {v : α}

theorem empty : Matches (Counted.empty : Counted α) Handles.empty fun _ => 0 where
  sound := sound_empty
  get?_eq := get?_empty
  live_eq := rfl
  generation_eq _ := rfl
  index_lt _ hx := (List.not_mem_nil hx).elim
  held_or_past _ hx := (List.not_mem_nil hx).elim

theorem mem_held_iff (hc : Matches c h n) {x : ScopeId} :
    x ∈ h.held ↔ ∃ v, c.arena.get? x = some v := by
  rw [Finmap.mem_iff, hc.get?_eq]

/-- The id of a stored value has the generation of its slot, and every id given out before with
that slot is in use or behind it. -/
theorem alloc_not_mem_given (hc : Matches c h n) (v : α) : (c.arena.alloc v).1 ∉ h.given := by
  intro hGiven
  have hgeneration : c.arena.generation (c.arena.alloc v).1.index =
      (c.arena.alloc v).1.generation.toNat := by
    rw [← generation_of_get? (get?_alloc_self hc.sound v), generation_alloc hc.sound]
  rcases hc.held_or_past _ hGiven with hHeld | hPast
  · obtain ⟨w, hw⟩ := hc.mem_held_iff.mp hHeld
    rw [get?_alloc_fresh hc.sound] at hw
    cases hw
  · exact Nat.lt_irrefl _ (hgeneration ▸ hPast)

theorem alloc_index_lt (hc : Matches c h n) (v : α) :
    (c.arena.alloc v).1.index < (c.arena.alloc v).2.slots.size :=
  (Array.getElem?_eq_some_iff.mp (get?_eq_some_iff.mp (get?_alloc_self hc.sound v))).1

theorem slots_size_alloc_le (hc : Matches c h n) (v : α) :
    c.arena.slots.size ≤ (c.arena.alloc v).2.slots.size := by
  rcases alloc_cases hc.sound v with ⟨-, ha⟩ | ⟨i, rest, g, -, -, ha⟩ <;> simp [ha]

theorem alloc (hc : Matches c h n) (v : α) :
    Matches (c.respond (.alloc v)).2
      ⟨(c.arena.alloc v).1 :: h.given, h.held.insert (c.arena.alloc v).1 v⟩ n where
  sound := hc.sound.alloc v
  get?_eq x := by
    rw [Handles.lookup_insert_eq]
    split
    · rename_i hx
      exact hx ▸ get?_alloc_self hc.sound v
    · rename_i hx
      exact (get?_alloc_ne hc.sound v hx).trans (hc.get?_eq x)
  live_eq := by
    have hid : (c.arena.alloc v).1 ∉ h.held := by
      rw [← Finmap.lookup_eq_none, ← hc.get?_eq, get?_alloc_fresh hc.sound]
    rw [Handles.card_keys_insert hid, ← hc.live_eq]
    rfl
  generation_eq i := (congrFun (generation_alloc hc.sound v) i).trans (hc.generation_eq i)
  index_lt x hx := by
    rcases List.mem_cons.mp hx with rfl | hx
    · exact hc.alloc_index_lt v
    · exact Nat.lt_of_lt_of_le (hc.index_lt x hx) (hc.slots_size_alloc_le v)
  held_or_past x hx := by
    rw [Finmap.mem_insert]
    rcases List.mem_cons.mp hx with rfl | hx
    · exact Or.inl (Or.inl rfl)
    · rcases hc.held_or_past x hx with hHeld | hPast
      · exact Or.inl (Or.inr hHeld)
      · exact Or.inr (hPast.trans_eq (congrFun (generation_alloc hc.sound v) x.index).symm)

/-- Dropping a value takes its slot to the next generation, which is not the first one again. -/
theorem generation_free_eq (hc : Matches c h n) (hid : c.arena.get? id = some v)
    (hRoom : n id.index + 1 < 2 ^ 32) (i : Nat) :
    (c.arena.free id).2.generation i = n i + if i = id.index then 1 else 0 := by
  rw [generation_free hid]
  split
  · rename_i hi
    have hgeneration : id.generation.toNat = n id.index := by
      rw [← generation_of_get? hid, hc.generation_eq]
    rw [hi, UInt32.toNat_add, hgeneration, UInt32.toNat_one, Nat.mod_eq_of_lt hRoom]
  · exact hc.generation_eq i

theorem free_of_some (hc : Matches c h n) (hid : c.arena.get? id = some v)
    (hRoom : n id.index + 1 < 2 ^ 32) :
    Matches (c.respond (.free id)).2 ⟨h.given, h.held.erase id⟩
      fun i => n i + if i = id.index then 1 else 0 := by
  rw [Counted.respond_free_of_some hid]
  have hgeneration := hc.generation_free_eq hid hRoom
  have hHeld : id ∈ h.held := hc.mem_held_iff.mpr ⟨v, hid⟩
  refine
    { sound := hc.sound.free id
      get?_eq := fun x => ?get
      live_eq := ?live
      generation_eq := hgeneration
      index_lt := fun x hx => ?index
      held_or_past := fun x hx => ?past }
  case get => rw [Handles.lookup_erase_eq, get?_free, hc.get?_eq]
  case live =>
    rw [Finmap.keys_erase, Finset.card_erase_of_mem (Finmap.mem_keys.mpr hHeld), ← hc.live_eq]
  case index =>
    rw [Arena.free_of_some hid, Array.size_setIfInBounds]
    exact hc.index_lt x hx
  case past =>
    rw [hgeneration, Finmap.mem_erase]
    by_cases hxid : x = id
    · right
      have hgen := generation_of_get? hid
      rw [hc.generation_eq] at hgen
      rw [hxid, if_pos rfl, hgen]
      exact Nat.lt_succ_self _
    · rcases hc.held_or_past x hx with hx | hx
      · exact Or.inl ⟨hxid, hx⟩
      · rw [hc.generation_eq] at hx
        exact Or.inr (Nat.lt_of_lt_of_le hx (Nat.le_add_right _ _))

theorem free_of_none (hc : Matches c h n) (hid : c.arena.get? id = none) :
    Matches (c.respond (.free id)).2 ⟨h.given, h.held.erase id⟩ n := by
  have herase : h.held.erase id = h.held := by
    apply Finmap.ext_lookup
    intro x
    rw [Handles.lookup_erase_eq]
    split
    · rename_i hx
      rw [hx, ← hc.get?_eq, hid]
    · rfl
  rw [Counted.respond_free_of_none hid, herase]
  exact hc

/-- One call on the arena is one call on the map. -/
theorem respond (hc : Matches c h n) (call : Call α)
    (hRoom : ∀ i, n i + frees i [(call, (c.respond call).1)] < 2 ^ 32) :
    ∃ h', h.Step call (c.respond call).1 h' ∧
      Matches (c.respond call).2 h' fun i => n i + frees i [(call, (c.respond call).1)] := by
  cases call with
  | alloc v => exact ⟨_, .alloc h v _ (hc.alloc_not_mem_given v), hc.alloc v⟩
  | free id =>
    refine ⟨⟨h.given, h.held.erase id⟩, ?_⟩
    have hStep := Handles.Step.free h id
    rw [← hc.get?_eq] at hStep
    cases hid : c.arena.get? id with
    | none =>
      have hreply : (c.respond (.free id)).1 = .freed none := by
        rw [Counted.respond_free_of_none hid]
      rw [hid] at hStep
      rw [hreply]
      exact ⟨hStep, hc.free_of_none hid⟩
    | some v =>
      have hreply : (c.respond (.free id)).1 = .freed (some v) := by
        rw [Counted.respond_free_of_some hid]
      rw [hid] at hStep
      rw [hreply] at hRoom ⊢
      simp only [frees_freed] at hRoom ⊢
      have hroom := hRoom id.index
      rw [if_pos rfl] at hroom
      exact ⟨hStep, hc.free_of_some hid hroom⟩

theorem run (hc : Matches c h n) (calls : List (Call α))
    (hRoom : ∀ i, n i + frees i (c.trace calls) < 2 ^ 32) :
    ∃ h', h.Run (c.trace calls) h' ∧
      Matches (c.after calls) h' fun i => n i + frees i (c.trace calls) := by
  induction calls generalizing c h n with
  | nil => exact ⟨h, .nil h, hc⟩
  | cons call rest ih =>
    simp only [Counted.trace, frees_cons _ _ ((c.respond call).2.trace rest), ← Nat.add_assoc]
      at hRoom ⊢
    obtain ⟨h₁, hStep, hc₁⟩ := hc.respond call fun i =>
      Nat.lt_of_le_of_lt (Nat.le_add_right _ _) (hRoom i)
    obtain ⟨h₂, hRun, hc₂⟩ := ih hc₁ hRoom
    exact ⟨h₂, .cons hStep hRun, hc₂⟩

end Matches

/-! ## What is told -/

/-- Everything an arena tells is told by the map. -/
structure Shows (c : Counted α) (h : Handles α) : Prop where
  get?_eq : ∀ x, c.arena.get? x = h.held.lookup x
  isLive_iff : ∀ x, c.arena.isLive x = true ↔ x ∈ h.held
  /-- An id that is not in use frees nothing. -/
  free_eq : ∀ x, x ∉ h.held → c.respond (.free x) = (.freed none, c)
  live_eq : c.live = h.held.keys.card
  size_eq : c.arena.size = h.held.keys.card
  mem_entries_iff : ∀ x v, (x, v) ∈ c.arena.entries ↔ h.held.lookup x = some v
  entries_sorted : (c.arena.entries.map (·.1.index)).Pairwise (· < ·)
  /-- The slots without a value are listed, each once. -/
  vacant_nodup : c.arena.vacant.Nodup
  mem_vacant_iff : ∀ i, i ∈ c.arena.vacant ↔ ∃ g, c.arena.slots[i]? = some ⟨g, none⟩
  /-- Ids are no longer than the number of slots. -/
  index_lt : ∀ x ∈ h.given, x.index < c.arena.slots.size

theorem entries_sorted (a : Arena α) : (a.entries.map (·.1.index)).Pairwise (· < ·) := by
  rw [map_index_entries]
  refine List.Pairwise.sublist (List.filter_sublist.map _) ?_
  rw [List.zipIdx_map_snd]
  exact List.pairwise_lt_range'

theorem Matches.size_eq {c : Counted α} {h : Handles α} {n : Nat → Nat} (hc : Matches c h n) :
    c.arena.size = h.held.keys.card := by
  have hkeys : (c.arena.entries.map Prod.fst).toFinset = h.held.keys := by
    ext x
    rw [List.mem_toFinset, Finmap.mem_keys, hc.mem_held_iff]
    simp [mem_entries_iff]
  rw [← hkeys, List.toFinset_card_of_nodup (nodup_entries _), List.length_map,
    size_eq_length_entries]

theorem Matches.shows {c : Counted α} {h : Handles α} {n : Nat → Nat} (hc : Matches c h n) :
    Shows c h where
  get?_eq := hc.get?_eq
  isLive_iff x := by rw [Arena.isLive_iff, hc.mem_held_iff]
  free_eq x hx := by
    refine Counted.respond_free_of_none ?_
    rw [hc.get?_eq, Finmap.lookup_eq_none]
    exact hx
  live_eq := hc.live_eq
  size_eq := hc.size_eq
  mem_entries_iff x v := by rw [Arena.mem_entries_iff, hc.get?_eq]
  entries_sorted := entries_sorted _
  vacant_nodup := hc.sound.vacant_nodup
  mem_vacant_iff := hc.sound.mem_vacant
  index_lt := hc.index_lt

/-- Every run of calls on an arena is a run of the map, and at its end the arena shows the map. -/
theorem Counted.exists_run_shows (calls : List (Call α))
    (hFrees : ∀ i, frees i ((empty : Counted α).trace calls) < 2 ^ 32) :
    ∃ h, Handles.empty.Run (empty.trace calls) h ∧ Shows (empty.after calls) h := by
  obtain ⟨h, hRun, hc⟩ := Matches.empty.run calls fun i => (Nat.zero_add _).symm ▸ hFrees i
  exact ⟨h, hRun, hc.shows⟩

/-- A slot is freed and used again; the old id and one that was never given out free nothing. -/
theorem Counted.exists_run_shows_reused :
    let calls : List (Call Char) :=
      [.alloc 'a', .alloc 'b', .free ⟨0, 0⟩, .alloc 'c', .free ⟨0, 0⟩, .free ⟨1, 5⟩]
    (empty.trace calls).map Prod.snd =
        [.given ⟨0, 0⟩, .given ⟨1, 0⟩, .freed (some 'a'), .given ⟨0, 1⟩, .freed none,
          .freed none] ∧
      (∀ i, frees i ((empty : Counted Char).trace calls) < 2 ^ 32) ∧
      ∃ h, Handles.empty.Run (empty.trace calls) h ∧ Shows (empty.after calls) h := by
  intro calls
  have hFrees : ∀ i, frees i ((empty : Counted Char).trace calls) < 2 ^ 32 := fun i =>
    Nat.lt_of_le_of_lt List.countP_le_length (by rw [length_trace]; decide)
  exact ⟨by decide, hFrees, exists_run_shows calls hFrees⟩

end FormulaOutline.Arena
