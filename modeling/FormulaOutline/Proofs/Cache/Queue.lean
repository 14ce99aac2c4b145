import FormulaOutline.Cache.Store
import Mathlib.Data.List.Induction
import Mathlib.Data.List.Nodup

/-!
# Values in the order of their last use

What a store holds can be told by a list: the values from the one that was used least recently to the
one that was used last. A value that is read or stored goes to the end, and a value that has to give
way is taken from the front.

* `Request`, `Answer`: what a store is asked at a time, and what it answers.
* `Queue.respond`: what a request does to such a list; `answerAll` puts requests one after the other.
* `Queue.Stands`: the value was the last one put under its key, and nothing has taken it away since.
* `Queue.respond_get_iff`: a key that is asked for has the value that stands, as long as it is not too
  old.
-/

namespace FormulaOutline.Cache

variable {α σ : Type}

/-! ## Requests -/

/-- What a store is asked. -/
inductive Request (α : Type)
  | put (key : CacheKey) (value : α) (cachedAt : Int)
  | get (key : CacheKey)
  | delete (key : CacheKey)
  | clear
  | purge

inductive Answer (α : Type)
  | stored
  | found (value : Option (α × Int))
  | deleted (there : Bool)
  | removed (count : Nat)
deriving DecidableEq

/-- Puts requests one after the other, each at its time. -/
def answerAll (respond : σ → Nat → Request α → Answer α × σ) :
    σ → List (Nat × Request α) → List (Answer α) × σ
  | s, [] => ([], s)
  | s, (now, r) :: rest =>
      let (answer, s) := respond s now r
      let (answers, s) := answerAll respond s rest
      (answer :: answers, s)

theorem answerAll_append (respond : σ → Nat → Request α → Answer α × σ) (s : σ)
    (requests : List (Nat × Request α)) (r : Nat × Request α) :
    (answerAll respond s (requests ++ [r])).2 =
      (respond (answerAll respond s requests).2 r.1 r.2).2 := by
  induction requests generalizing s with
  | nil => rfl
  | cons r' rest ih => exact ih _

/-! ## Queues -/

/-- A stored value without the stamp of its last use. -/
structure Held (α : Type) where
  key : CacheKey
  value : α
  cachedAt : Int
  inserted : Nat

def Held.isExpired (ttlMs now : Nat) (h : Held α) : Bool := ttlMs ≤ now - h.inserted

/-- Stored values from the one used least recently to the one used last. -/
abbrev Queue (α : Type) := List (Held α)

namespace Queue

def find? (q : Queue α) (key : CacheKey) : Option (Held α) := List.find? (·.key = key) q

def without (q : Queue α) (key : CacheKey) : Queue α := q.filter (·.key ≠ key)

/-- A new value goes to the end, in the place of the value of its key or, if there is none and no room
is left, of the value at the front. -/
def put (config : CacheConfig) (q : Queue α) (h : Held α) : Queue α :=
  if config.maxEntries = 0 then q
  else if (q.find? h.key).isSome then q.without h.key ++ [h]
  else if config.maxEntries ≤ q.length then q.tail ++ [h]
  else q ++ [h]

def respond (config : CacheConfig) (q : Queue α) (now : Nat) : Request α → Answer α × Queue α
  | .put key value cachedAt => (.stored, q.put config ⟨key, value, cachedAt, now⟩)
  | .get key =>
      match q.find? key with
      | none => (.found none, q)
      | some h =>
          if h.isExpired config.ttlMs now then (.found none, q.without key)
          else (.found (some (h.value, h.cachedAt)), q.without key ++ [h])
  | .delete key => (.deleted (q.find? key).isSome, q.without key)
  | .clear => (.removed q.length, [])
  | .purge =>
      (.removed (q.countP (·.isExpired config.ttlMs now)),
        q.filter (!·.isExpired config.ttlMs now))

/-- What is held after requests to an empty store. -/
def after (config : CacheConfig) (requests : List (Nat × Request α)) : Queue α :=
  (answerAll (respond config) [] requests).2

/-- No key is twice in a queue, which is not too long. -/
structure Proper (config : CacheConfig) (q : Queue α) : Prop where
  keys : (q.map Held.key).Nodup
  room : q.length ≤ config.maxEntries

variable {config : CacheConfig} {q : Queue α} {h : Held α} {key : CacheKey} {now : Nat}
  {requests : List (Nat × Request α)}

theorem mem_without : h ∈ q.without key ↔ h ∈ q ∧ h.key ≠ key := by
  simp [without]

theorem find?_eq_some_iff (hKeys : (q.map Held.key).Nodup) :
    q.find? key = some h ↔ h ∈ q ∧ h.key = key := by
  constructor
  · intro hFind
    exact ⟨List.mem_of_find?_eq_some hFind, by simpa using List.find?_some hFind⟩
  · rintro ⟨hMem, rfl⟩
    cases hFind : q.find? h.key with
    | none =>
      have hNot := List.find?_eq_none.mp hFind h hMem
      simp at hNot
    | some h' =>
      have hKey : h'.key = h.key := by simpa using List.find?_some hFind
      rw [List.inj_on_of_nodup_map hKeys (List.mem_of_find?_eq_some hFind) hMem hKey]

theorem find?_eq_none_iff : q.find? key = none ↔ ∀ h ∈ q, h.key ≠ key := by
  simp [find?]

theorem nodup_without (hKeys : (q.map Held.key).Nodup) (key : CacheKey) :
    ((q.without key).map Held.key).Nodup :=
  (List.filter_sublist.map Held.key).nodup hKeys

/-- A value whose key is not there can be put at the end. -/
theorem nodup_append (hKeys : (q.map Held.key).Nodup) (hNew : ∀ h' ∈ q, h'.key ≠ h.key) :
    ((q ++ [h]).map Held.key).Nodup := by
  rw [List.map_append, List.nodup_append]
  refine ⟨hKeys, List.nodup_singleton _, ?_⟩
  rintro k hk k' hk' rfl
  obtain ⟨h', hMem, rfl⟩ := List.mem_map.mp hk
  exact hNew h' hMem (by simpa using hk')

theorem nodup_without_append (hKeys : (q.map Held.key).Nodup) (hKey : h.key = key) :
    ((q.without key ++ [h]).map Held.key).Nodup :=
  nodup_append (nodup_without hKeys key) fun _ hMem => hKey ▸ (mem_without.mp hMem).2

theorem length_without_lt (hMem : h ∈ q) (hKey : h.key = key) :
    (q.without key).length < q.length :=
  List.length_filter_lt_length_iff_exists.mpr ⟨h, hMem, by simp [hKey]⟩

theorem Proper.put (hq : q.Proper config) (h : Held α) : (q.put config h).Proper config := by
  rw [Queue.put]
  split
  · exact hq
  · rename_i hRoom
    cases hFind : q.find? h.key with
    | some h' =>
      obtain ⟨hMem, hKey⟩ := (find?_eq_some_iff hq.keys).mp hFind
      have hLess := length_without_lt hMem hKey
      have hLe := hq.room
      simp only [Option.isSome_some, if_true]
      refine ⟨nodup_without_append hq.keys rfl, ?_⟩
      rw [List.length_append, List.length_singleton]
      omega
    | none =>
      have hNew := find?_eq_none_iff.mp hFind
      simp only [Option.isSome_none, Bool.false_eq_true, if_false]
      split
      · refine ⟨nodup_append ((List.tail_sublist q).map _ |>.nodup hq.keys) fun h' hMem =>
          hNew h' (List.mem_of_mem_tail hMem), ?_⟩
        have hLe := hq.room
        rw [List.length_append, List.length_singleton, List.length_tail]
        omega
      · refine ⟨nodup_append hq.keys hNew, ?_⟩
        rw [List.length_append, List.length_singleton]
        omega

theorem Proper.of_sublist {q' : Queue α} (hq : q.Proper config) (h : q'.Sublist q) :
    q'.Proper config :=
  ⟨(h.map _).nodup hq.keys, Nat.le_trans h.length_le hq.room⟩

theorem Proper.respond (hq : q.Proper config) (now : Nat) (r : Request α) :
    (q.respond config now r).2.Proper config := by
  cases r with
  | put key value cachedAt => exact hq.put _
  | get key =>
    rw [Queue.respond]
    cases hFind : q.find? key with
    | none => exact hq
    | some h =>
      obtain ⟨hMem, hKey⟩ := (find?_eq_some_iff hq.keys).mp hFind
      dsimp only
      split
      · exact hq.of_sublist List.filter_sublist
      · refine ⟨nodup_without_append hq.keys hKey, ?_⟩
        have hLess := length_without_lt hMem hKey
        have hLe := hq.room
        rw [List.length_append, List.length_singleton]
        omega
  | delete key => exact hq.of_sublist List.filter_sublist
  | clear => exact hq.of_sublist (List.nil_sublist q)
  | purge => exact hq.of_sublist List.filter_sublist

theorem proper_after (config : CacheConfig) (requests : List (Nat × Request α)) :
    (after config requests).Proper config := by
  induction requests using List.reverseRecOn with
  | nil => exact ⟨List.nodup_nil, Nat.zero_le _⟩
  | append_singleton requests r ih =>
    rw [after, answerAll_append]
    exact ih.respond r.1 r.2

/-! ## What stands -/

/-- A request stores a value under a key. -/
def Puts (key : CacheKey) : Request α → Prop
  | .put k _ _ => k = key
  | _ => False

/-- A request takes a key out of a queue whatever its age: it is deleted, all keys are, or it stands at
the front when room is needed for a key that is not there. -/
def Loses (config : CacheConfig) (q : Queue α) (key : CacheKey) : Request α → Prop
  | .delete k => k = key
  | .clear => True
  | .put k _ _ => q.find? k = none ∧ config.maxEntries ≤ q.length ∧ q.head?.map Held.key = some key
  | _ => False

/-- The request that has stored a value. -/
def origin (h : Held α) : Nat × Request α := (h.inserted, .put h.key h.value h.cachedAt)

/-- The value is the last one that was put under its key, and no request has taken it away since. -/
def Stands (config : CacheConfig) (requests : List (Nat × Request α)) (h : Held α) : Prop :=
  ∃ before later, requests = before ++ origin h :: later ∧
    ∀ middle r rest, later = middle ++ r :: rest →
      ¬ Puts h.key r.2 ∧ ¬ Loses config (after config (before ++ origin h :: middle)) h.key r.2

theorem stands_append {r : Nat × Request α} : Stands config (requests ++ [r]) h ↔
    r = origin h ∨
      (Stands config requests h ∧ ¬ Puts h.key r.2 ∧
        ¬ Loses config (after config requests) h.key r.2) := by
  constructor
  · rintro ⟨before, later, hSplit, hLater⟩
    rcases List.eq_nil_or_concat later with rfl | ⟨later, r', rfl⟩
    · obtain ⟨-, hEq⟩ := List.append_inj' hSplit rfl
      exact Or.inl (List.cons.inj hEq).1
    · rw [List.concat_eq_append, ← List.cons_append, ← List.append_assoc] at hSplit
      obtain ⟨rfl, hEq⟩ := List.append_inj' hSplit rfl
      obtain rfl := (List.cons.inj hEq).1
      refine Or.inr ⟨⟨before, later, rfl, ?_⟩, hLater later r [] (List.concat_eq_append ..)⟩
      rintro middle f rest rfl
      exact hLater middle f (rest ++ [r]) (by simp)
  · rintro (rfl | ⟨⟨before, later, rfl, hLater⟩, hKept⟩)
    · exact ⟨requests, [], rfl, fun middle f rest hNil => by simp at hNil⟩
    · refine ⟨before, later ++ [r], by simp, fun middle f rest hSplit => ?_⟩
      rcases List.eq_nil_or_concat rest with rfl | ⟨rest, f', rfl⟩
      · obtain ⟨rfl, hEq⟩ := List.append_inj' hSplit rfl
        obtain rfl := (List.cons.inj hEq).1
        exact hKept
      · rw [List.concat_eq_append, ← List.cons_append, ← List.append_assoc] at hSplit
        exact hLater middle f rest (List.append_inj' hSplit rfl).1

/-- What a queue holds after a request has been stored by it, or has been kept. -/
theorem Proper.mem_respond (hq : q.Proper config) {r : Request α}
    (hMem : h ∈ (q.respond config now r).2) :
    (config.maxEntries ≠ 0 ∧ (now, r) = origin h) ∨
      (h ∈ q ∧ ¬ Puts h.key r ∧ ¬ Loses config q h.key r) := by
  cases r with
  | put key value cachedAt =>
    change h ∈ q.put config ⟨key, value, cachedAt, now⟩ at hMem
    rw [Queue.put] at hMem
    by_cases hZero : config.maxEntries = 0
    · -- Nothing can be stored at all.
      have hRoom := hq.room
      rw [hZero, Nat.le_zero, List.length_eq_zero_iff] at hRoom
      rw [if_pos hZero, hRoom] at hMem
      cases hMem
    · rw [if_neg hZero] at hMem
      cases hFind : q.find? key with
      | some h' =>
        rw [if_pos (by simp [hFind]), List.mem_append, List.mem_singleton] at hMem
        rcases hMem with hMem | rfl
        · obtain ⟨hMem, hKey⟩ := mem_without.mp hMem
          exact Or.inr ⟨hMem, Ne.symm hKey, by simp [Loses, hFind]⟩
        · exact Or.inl ⟨hZero, rfl⟩
      | none =>
        have hNew := find?_eq_none_iff.mp hFind
        rw [if_neg (by simp [hFind])] at hMem
        split at hMem
        · rw [List.mem_append, List.mem_singleton] at hMem
          rcases hMem with hMem | rfl
          · refine Or.inr ⟨List.mem_of_mem_tail hMem,
              Ne.symm (hNew h (List.mem_of_mem_tail hMem)), ?_⟩
            rintro ⟨-, -, hFront⟩
            cases q with
            | nil => cases hMem
            | cons first rest =>
              have hKeys := hq.keys
              rw [List.map_cons, List.nodup_cons] at hKeys
              obtain hKey : first.key = h.key := by simpa using hFront
              exact hKeys.1 (hKey ▸ List.mem_map_of_mem hMem)
          · exact Or.inl ⟨hZero, rfl⟩
        · rename_i hRoom
          rw [List.mem_append, List.mem_singleton] at hMem
          rcases hMem with hMem | rfl
          · exact Or.inr ⟨hMem, Ne.symm (hNew h hMem), fun hLoses => hRoom hLoses.2.1⟩
          · exact Or.inl ⟨hZero, rfl⟩
  | get key =>
    refine Or.inr ⟨?_, id, id⟩
    rw [Queue.respond] at hMem
    cases hFind : q.find? key with
    | none => simpa [hFind] using hMem
    | some h' =>
      rw [hFind] at hMem
      dsimp only at hMem
      split at hMem
      · exact (mem_without.mp hMem).1
      · rw [List.mem_append, List.mem_singleton] at hMem
        rcases hMem with hMem | rfl
        · exact (mem_without.mp hMem).1
        · exact List.mem_of_find?_eq_some hFind
  | delete key =>
    obtain ⟨hMem, hKey⟩ := mem_without.mp hMem
    exact Or.inr ⟨hMem, id, Ne.symm hKey⟩
  | clear => cases hMem
  | purge => exact Or.inr ⟨(List.mem_filter.mp hMem).1, id, id⟩

/-- A value stays as long as it is not too old, no other one is put under its key and no request takes
it away. -/
theorem Proper.mem_respond_of_mem (hq : q.Proper config) {r : Request α} (hMem : h ∈ q)
    (hFresh : h.isExpired config.ttlMs now = false) (hPuts : ¬ Puts h.key r)
    (hLoses : ¬ Loses config q h.key r) : h ∈ (q.respond config now r).2 := by
  cases r with
  | put key value cachedAt =>
    change h ∈ q.put config ⟨key, value, cachedAt, now⟩
    have hKey : h.key ≠ key := fun hEq => hPuts hEq.symm
    rw [Queue.put]
    split
    · exact hMem
    · split
      · exact List.mem_append_left _ (mem_without.mpr ⟨hMem, hKey⟩)
      · rename_i hFind
        split
        · rename_i hFull
          refine List.mem_append_left _ ?_
          cases q with
          | nil => cases hMem
          | cons first rest =>
            rcases List.mem_cons.mp hMem with rfl | hMem
            · exact (hLoses ⟨by simpa using hFind, hFull, rfl⟩).elim
            · exact hMem
        · exact List.mem_append_left _ hMem
  | get key =>
    rw [Queue.respond]
    cases hFind : q.find? key with
    | none => exact hMem
    | some h' =>
      obtain ⟨hMem', hKey'⟩ := (find?_eq_some_iff hq.keys).mp hFind
      by_cases hKey : h.key = key
      · obtain rfl : h = h' := List.inj_on_of_nodup_map hq.keys hMem hMem' (hKey.trans hKey'.symm)
        simp [hFresh]
      · have hLeft := mem_without.mpr ⟨hMem, hKey⟩
        dsimp only
        split
        · exact hLeft
        · exact List.mem_append_left _ hLeft
  | delete key => exact mem_without.mpr ⟨hMem, fun hEq => hLoses hEq.symm⟩
  | clear => exact (hLoses trivial).elim
  | purge => exact List.mem_filter.mpr ⟨hMem, by simp [hFresh]⟩

theorem mem_respond_origin (hRoom : config.maxEntries ≠ 0) (q : Queue α) (h : Held α) :
    h ∈ (q.respond config (origin h).1 (origin h).2).2 := by
  change h ∈ q.put config h
  rw [Queue.put, if_neg hRoom]
  split
  · exact List.mem_append_right _ (List.mem_singleton_self h)
  · split <;> exact List.mem_append_right _ (List.mem_singleton_self h)

theorem isExpired_mono {time : Nat} (hTime : time ≤ now)
    (hFresh : h.isExpired config.ttlMs now = false) : h.isExpired config.ttlMs time = false := by
  rw [Held.isExpired, decide_eq_false_iff_not] at *
  omega

/-- A value that is not too old yet is held if and only if it stands. -/
theorem mem_after_iff (hTimes : ∀ r ∈ requests, r.1 ≤ now)
    (hFresh : h.isExpired config.ttlMs now = false) :
    h ∈ after config requests ↔ config.maxEntries ≠ 0 ∧ Stands config requests h := by
  induction requests using List.reverseRecOn with
  | nil =>
    refine iff_of_false (by simp [after, answerAll]) ?_
    rintro ⟨-, before, later, hSplit, -⟩
    simp at hSplit
  | append_singleton requests r ih =>
    have hProper := proper_after config requests
    have hFirst := ih fun r' hr' => hTimes r' (List.mem_append_left _ hr')
    have hFreshThen := isExpired_mono (hTimes r (by simp)) hFresh
    rw [stands_append, after, answerAll_append, ← after]
    constructor
    · intro hMem
      rcases hProper.mem_respond hMem with ⟨hRoom, hOrigin⟩ | ⟨hMem, hKept⟩
      · exact ⟨hRoom, Or.inl hOrigin⟩
      · obtain ⟨hRoom, hStands⟩ := hFirst.mp hMem
        exact ⟨hRoom, Or.inr ⟨hStands, hKept⟩⟩
    · rintro ⟨hRoom, rfl | ⟨hStands, hPuts, hLoses⟩⟩
      · exact mem_respond_origin hRoom _ h
      · exact hProper.mem_respond_of_mem (hFirst.mpr ⟨hRoom, hStands⟩) hFreshThen hPuts hLoses

/-- A key that is asked for has the value of the last request that put one under it, if no request has
taken that away since and it is not too old by now. -/
theorem respond_get_iff (hTimes : ∀ r ∈ requests, r.1 ≤ now) (key : CacheKey) (value : α)
    (cachedAt : Int) :
    ((after config requests).respond config now (.get key)).1 = .found (some (value, cachedAt)) ↔
      config.maxEntries ≠ 0 ∧ ∃ inserted, now - inserted < config.ttlMs ∧
        Stands config requests ⟨key, value, cachedAt, inserted⟩ := by
  have hProper := proper_after config requests
  have hHeld : ∀ inserted, now - inserted < config.ttlMs →
      (⟨key, value, cachedAt, inserted⟩ ∈ after config requests ↔
        config.maxEntries ≠ 0 ∧ Stands config requests ⟨key, value, cachedAt, inserted⟩) :=
    fun inserted hAge => mem_after_iff hTimes (by simpa [Held.isExpired] using hAge)
  constructor
  · intro hAnswer
    rw [respond] at hAnswer
    cases hFind : (after config requests).find? key with
    | none => simp [hFind] at hAnswer
    | some h =>
      obtain ⟨hMem, rfl⟩ := (find?_eq_some_iff hProper.keys).mp hFind
      rw [hFind] at hAnswer
      dsimp only at hAnswer
      split at hAnswer
      · simp at hAnswer
      · rename_i hFresh
        obtain ⟨rfl, rfl⟩ : h.value = value ∧ h.cachedAt = cachedAt := by simpa using hAnswer
        have hAge : now - h.inserted < config.ttlMs := by simpa [Held.isExpired] using hFresh
        obtain ⟨hRoom, hStands⟩ := (hHeld h.inserted hAge).mp hMem
        exact ⟨hRoom, h.inserted, hAge, hStands⟩
  · rintro ⟨hRoom, inserted, hAge, hStands⟩
    have hFind := (find?_eq_some_iff hProper.keys).mpr
      ⟨(hHeld inserted hAge).mpr ⟨hRoom, hStands⟩, rfl⟩
    rw [respond, hFind]
    dsimp only
    rw [if_neg (by simpa [Held.isExpired] using hAge)]

end Queue

end FormulaOutline.Cache
