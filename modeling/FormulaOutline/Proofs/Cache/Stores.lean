import FormulaOutline.Proofs.Cache.Queue
import Mathlib.Data.List.Perm.Basic

/-!
# Stores as queues

A store keeps its entries by key and, beside them, the keys by stamp. Both say the same: the stamps are
those of the entries, and taken in their order the entries are a queue, which every request changes as
it changes a queue.

* `InOrder`, `Arranged`: a list holds the entries of a store in the order of their stamps, and so do the
  marks of the store. A new stamp is greater than all others, so that what is marked goes to the end.
* `Arranged.respond`: one request. Making room drops from the front (`Arranged.makeRoom`), a purge
  removes its keys one by one (`Arranged.removeAll`).
* `Store.answers_as_queue`: any requests to an empty store.
-/

namespace FormulaOutline.Cache

variable {α : Type} {l : List (Entry α)} {e : Entry α}

/-! ## Entries in order -/

def Entry.held (e : Entry α) : Held α := ⟨e.key, e.value, e.cachedAt, e.inserted⟩

def Entry.mark (e : Entry α) : Nat × CacheKey := (e.lastUsed, e.key)

/-- A stamp above all others is put at the end. -/
theorem mark_eq_append {stamp : Nat} {key : CacheKey} {marks : List (Nat × CacheKey)}
    (hLast : ∀ m ∈ marks, m.1 < stamp) : mark stamp key marks = marks ++ [(stamp, key)] := by
  induction marks with
  | nil => rfl
  | cons m rest ih =>
    obtain ⟨t, k⟩ := m
    have hLess : t < stamp := hLast (t, k) (List.mem_cons_self ..)
    rw [mark, if_neg (by omega), if_neg (by omega),
      ih fun m hMem => hLast m (List.mem_cons_of_mem _ hMem), List.cons_append]

/-- Every key is there once, and the stamps go up. -/
structure InOrder (l : List (Entry α)) : Prop where
  keys : (l.map Entry.key).Nodup
  stamps : l.Pairwise (·.lastUsed < ·.lastUsed)

namespace InOrder

theorem sublist {l' : List (Entry α)} (hl : InOrder l) (h : l'.Sublist l) : InOrder l' :=
  ⟨(h.map _).nodup hl.keys, hl.stamps.sublist h⟩

theorem nodup_stamps (hl : InOrder l) : (l.map Entry.lastUsed).Nodup := by
  rw [List.Nodup, List.pairwise_map]
  exact hl.stamps.imp Nat.ne_of_lt

/-- Stamps and keys both tell which entry it is. -/
theorem unmark_eq (hl : InOrder l) (hMem : e ∈ l) :
    unmark e.lastUsed (l.map Entry.mark) = (l.filter (·.key ≠ e.key)).map Entry.mark := by
  rw [unmark, List.filter_map]
  congr 1
  refine List.filter_congr fun e' hMem' => ?_
  have hSame : e'.lastUsed = e.lastUsed ↔ e'.key = e.key := by
    constructor
    · intro hEq
      rw [List.inj_on_of_nodup_map hl.nodup_stamps hMem' hMem hEq]
    · intro hEq
      rw [List.inj_on_of_nodup_map hl.keys hMem' hMem hEq]
  simp [Entry.mark, hSame]

theorem renew (hl : InOrder l) (hNew : ∀ e' ∈ l, e'.lastUsed < e.lastUsed) :
    InOrder (l.filter (·.key ≠ e.key) ++ [e]) := by
  have hRest := hl.sublist (List.filter_sublist (p := (·.key ≠ e.key)))
  constructor
  · rw [List.map_append, List.nodup_append]
    refine ⟨hRest.keys, List.nodup_singleton _, ?_⟩
    rintro k hk k' hk' rfl
    obtain ⟨e', hMem, rfl⟩ := List.mem_map.mp hk
    have hKey : e'.key ≠ e.key := by simpa using (List.mem_filter.mp hMem).2
    exact hKey (by simpa using hk')
  · rw [List.pairwise_append]
    refine ⟨hRest.stamps, List.pairwise_singleton _ _, fun e' hMem e'' hMem' => ?_⟩
    obtain rfl := List.mem_singleton.mp hMem'
    exact hNew e' (List.mem_filter.mp hMem).1

/-- Changing the entry of a key where it is, or taking it to the end. -/
theorem perm_change (hl : InOrder l) (hMem : e ∈ l) (change : Entry α → Entry α) :
    (l.filter (·.key ≠ e.key) ++ [change e]).Perm
      (l.map fun x => if x.key = e.key then change x else x) := by
  obtain ⟨before, later, rfl⟩ := List.append_of_mem hMem
  have hKeys := hl.keys
  rw [List.map_append, List.map_cons, List.nodup_middle, List.nodup_cons, ← List.map_append] at hKeys
  have hOther : ∀ x ∈ before ++ later, x.key ≠ e.key := fun x hx hKey =>
    hKeys.1 (hKey ▸ List.mem_map_of_mem hx)
  have hBefore : ∀ x ∈ before, x.key ≠ e.key := fun x hx => hOther x (List.mem_append_left _ hx)
  have hLater : ∀ x ∈ later, x.key ≠ e.key := fun x hx => hOther x (List.mem_append_right _ hx)
  have hFilter : (before ++ e :: later).filter (·.key ≠ e.key) = before ++ later := by
    rw [List.filter_append, List.filter_cons_of_neg (by simp),
      List.filter_eq_self.mpr (by simpa using hBefore),
      List.filter_eq_self.mpr (by simpa using hLater)]
  have hSame : ∀ xs : List (Entry α), (∀ x ∈ xs, x.key ≠ e.key) →
      xs.map (fun x => if x.key = e.key then change x else x) = xs := fun xs hxs =>
    (List.map_congr_left fun x hx => if_neg (hxs x hx)).trans (List.map_id' xs)
  rw [hFilter, List.map_append, List.map_cons, hSame before hBefore, hSame later hLater, if_pos rfl]
  exact (List.perm_append_singleton _ _).trans List.perm_middle.symm

end InOrder

/-! ## Stores in order -/

/-- What a store holds, in the order of the stamps. -/
def Store.queue (s : Store α) : Queue α :=
  s.recency.filterMap fun m => (s.find? m.2).map Entry.held

/-- The entries of a store in the order of their stamps, which its marks say again. -/
structure Arranged (config : CacheConfig) (s : Store α) (l : List (Entry α)) : Prop where
  config_eq : s.config = config
  perm : l.Perm s.entries
  recency : s.recency = l.map Entry.mark
  order : InOrder l
  used : ∀ e ∈ l, e.lastUsed ≤ s.uses
  room : l.length ≤ config.maxEntries

namespace Arranged

variable {config : CacheConfig} {s : Store α} {key : CacheKey} {now : Nat}

theorem empty (config : CacheConfig) : Arranged config (Store.empty config : Store α) [] where
  config_eq := rfl
  perm := List.Perm.nil
  recency := rfl
  order := ⟨List.nodup_nil, List.Pairwise.nil⟩
  used := by simp
  room := Nat.zero_le _

theorem nodup_keys (hs : Arranged config s l) : (s.entries.map Entry.key).Nodup :=
  (hs.perm.map Entry.key).nodup_iff.mp hs.order.keys

theorem size_eq (hs : Arranged config s l) : s.size = l.length := hs.perm.length_eq.symm

theorem find?_eq_some_iff (hs : Arranged config s l) :
    s.find? key = some e ↔ e ∈ l ∧ e.key = key := by
  rw [hs.perm.mem_iff]
  constructor
  · intro hFind
    exact ⟨List.mem_of_find?_eq_some hFind, by simpa using List.find?_some hFind⟩
  · rintro ⟨hMem, rfl⟩
    cases hFind : s.find? e.key with
    | none =>
      have hNot := List.find?_eq_none.mp hFind e hMem
      simp at hNot
    | some e' =>
      have hKey : e'.key = e.key := by simpa using List.find?_some hFind
      rw [List.inj_on_of_nodup_map hs.nodup_keys (List.mem_of_find?_eq_some hFind) hMem hKey]

theorem find?_eq_none_iff (hs : Arranged config s l) :
    s.find? key = none ↔ ∀ e ∈ l, e.key ≠ key := by
  simp [Store.find?, hs.perm.mem_iff]

/-- The queue of the entries finds what the store finds. -/
theorem find?_held (hs : Arranged config s l) :
    Queue.find? (l.map Entry.held) key = (s.find? key).map Entry.held := by
  have hHeld : ((l.map Entry.held).map Held.key) = l.map Entry.key := by
    rw [List.map_map]
    rfl
  cases hFind : s.find? key with
  | none =>
    have hNone := hs.find?_eq_none_iff.mp hFind
    rw [Option.map_none, Queue.find?_eq_none_iff]
    intro h hHas
    obtain ⟨e, hMem, rfl⟩ := List.mem_map.mp hHas
    exact hNone e hMem
  | some e =>
    obtain ⟨hMem, hKey⟩ := hs.find?_eq_some_iff.mp hFind
    rw [Option.map_some, Queue.find?_eq_some_iff (hHeld ▸ hs.order.keys)]
    exact ⟨List.mem_map_of_mem hMem, hKey⟩

theorem without_held (l : List (Entry α)) (key : CacheKey) :
    Queue.without (l.map Entry.held) key = (l.filter (·.key ≠ key)).map Entry.held := by
  rw [Queue.without, List.filter_map]
  rfl

/-- What a store holds is told by the entries in order. -/
theorem queue_eq (hs : Arranged config s l) : s.queue = l.map Entry.held := by
  rw [Store.queue, hs.recency, List.filterMap_map, ← List.filterMap_eq_map]
  refine List.filterMap_congr fun e hMem => ?_
  rw [Function.comp_apply, Entry.mark, hs.find?_eq_some_iff.mpr ⟨hMem, rfl⟩]
  rfl

/-! ### Parts of a request -/

theorem remove (hs : Arranged config s l) (key : CacheKey) :
    Arranged config (s.remove key).2 (l.filter (·.key ≠ key)) := by
  have hSub := List.filter_sublist (p := fun e : Entry α => decide (e.key ≠ key)) (l := l)
  have hUsed : ∀ e ∈ l.filter (·.key ≠ key), e.lastUsed ≤ s.uses := fun e hMem =>
    hs.used e (List.mem_filter.mp hMem).1
  have hRoom := Nat.le_trans hSub.length_le hs.room
  rw [Store.remove]
  cases hFind : s.find? key with
  | none =>
    have hAll : l.filter (·.key ≠ key) = l :=
      List.filter_eq_self.mpr (by simpa using hs.find?_eq_none_iff.mp hFind)
    rw [hAll]
    exact hs
  | some e =>
    obtain ⟨hMem, rfl⟩ := hs.find?_eq_some_iff.mp hFind
    dsimp only
    exact
      { config_eq := hs.config_eq
        perm := hs.perm.filter _
        recency := by rw [hs.recency, hs.order.unmark_eq hMem]
        order := hs.order.sublist hSub
        used := hUsed
        room := hRoom }

theorem removeAll (hs : Arranged config s l) (keys : List CacheKey) :
    Arranged config (keys.foldl (fun s key => (s.remove key).2) s) (l.filter (·.key ∉ keys)) := by
  induction keys generalizing s l with
  | nil => simpa using hs
  | cons key rest ih =>
    have hRest := ih (hs.remove key)
    rw [List.filter_filter] at hRest
    simpa [Bool.and_comm] using hRest

/-- A new entry takes the place of the one of its key, at the end. -/
theorem insert (hs : Arranged config s l) (hNew : ∀ e' ∈ l, e'.lastUsed < e.lastUsed)
    (hUsed : e.lastUsed ≤ s.uses) (hRoom : (l.filter (·.key ≠ e.key)).length < config.maxEntries) :
    Arranged config (s.insert e) (l.filter (·.key ≠ e.key) ++ [e]) := by
  have hMarks : mark e.lastUsed e.key s.recency = (l ++ [e]).map Entry.mark := by
    rw [hs.recency, mark_eq_append, List.map_append]
    · rfl
    · intro m hHas
      obtain ⟨e', hMem, rfl⟩ := List.mem_map.mp hHas
      exact hNew e' hMem
  refine
    { config_eq := hs.config_eq
      perm := (hs.perm.filter _).append_right [e]
      recency := ?_
      order := hs.order.renew hNew
      used := ?_
      room := ?_ }
  · rw [Store.insert, hMarks]
    cases hFind : s.find? e.key with
    | none =>
      have hAll : l.filter (·.key ≠ e.key) = l :=
        List.filter_eq_self.mpr (by simpa using hs.find?_eq_none_iff.mp hFind)
      rw [hAll]
    | some old =>
      obtain ⟨hMem, hKey⟩ := hs.find?_eq_some_iff.mp hFind
      have hOther : e.lastUsed ≠ old.lastUsed := Nat.ne_of_gt (hNew old hMem)
      have hOld := hs.order.unmark_eq hMem
      rw [hKey] at hOld
      -- The old stamp is taken out after the new one has been put in.
      change unmark old.lastUsed ((l ++ [e]).map Entry.mark) = _
      rw [List.map_append, List.map_append, ← hOld, unmark, unmark, List.filter_append]
      congr 1
      simp [Entry.mark, hOther]
  · intro e' hMem
    rcases List.mem_append.mp hMem with hMem | hMem
    · exact Nat.le_trans (hs.used e' (List.mem_filter.mp hMem).1) (Nat.le_refl _)
    · rw [List.mem_singleton.mp hMem]
      exact hUsed
  · rw [List.length_append, List.length_singleton]
    exact hRoom

/-- An entry that is used goes to the end. -/
theorem touch (hs : Arranged config s l) (hFind : s.find? key = some e) :
    Arranged config (s.touch key)
      (l.filter (·.key ≠ key) ++ [{ e with lastUsed := s.uses + 1 }]) := by
  obtain ⟨hMem, rfl⟩ := hs.find?_eq_some_iff.mp hFind
  have hNew : ∀ e' ∈ l, e'.lastUsed < s.uses + 1 := fun e' hMem => Nat.lt_succ_of_le (hs.used e' hMem)
  have hMarks : ∀ m ∈ (l.filter (·.key ≠ e.key)).map Entry.mark, m.1 < s.uses + 1 := by
    intro m hHas
    obtain ⟨e', hMem, rfl⟩ := List.mem_map.mp hHas
    exact hNew e' (List.mem_filter.mp hMem).1
  rw [Store.touch, hFind]
  dsimp only
  refine
    { config_eq := hs.config_eq
      perm := (hs.order.perm_change hMem fun x => { x with lastUsed := s.uses + 1 }).trans
        (hs.perm.map _)
      recency := ?_
      order := hs.order.renew (e := { e with lastUsed := s.uses + 1 }) hNew
      used := ?_
      room := ?_ }
  · change mark (s.uses + 1) e.key (unmark e.lastUsed s.recency) = _
    rw [hs.recency, hs.order.unmark_eq hMem, mark_eq_append hMarks, List.map_append]
    rfl
  · intro e' hMem
    rcases List.mem_append.mp hMem with hMem | hMem
    · exact Nat.le_of_lt (hNew e' (List.mem_filter.mp hMem).1)
    · obtain rfl := List.mem_singleton.mp hMem
      exact Nat.le_refl _
  · have hLess : (l.filter (·.key ≠ e.key)).length < l.length :=
      List.length_filter_lt_length_iff_exists.mpr ⟨e, hMem, by simp⟩
    have hLe := hs.room
    rw [List.length_append, List.length_singleton]
    omega

theorem makeRoom_uses (s : Store α) (marks : List (Nat × CacheKey)) :
    (s.makeRoom marks).uses = s.uses := by
  induction marks generalizing s with
  | nil => rfl
  | cons m rest ih =>
    rw [Store.makeRoom]
    split
    · exact ih _
    · rfl

/-- The store without the entry at the front, which has given way. -/
theorem dropFront (hs : Arranged config s (e :: l)) :
    Arranged config
      { s with
        entries := s.entries.filter (·.key ≠ e.key)
        recency := l.map Entry.mark
        evictions := s.evictions + 1 } l := by
  have hKeys := hs.order.keys
  rw [List.map_cons, List.nodup_cons] at hKeys
  have hRest : (e :: l).filter (·.key ≠ e.key) = l := by
    rw [List.filter_cons_of_neg (by simp), List.filter_eq_self]
    intro e' hMem
    simpa using fun hKey : e'.key = e.key => hKeys.1 (hKey ▸ List.mem_map_of_mem hMem)
  exact
    { config_eq := hs.config_eq
      perm := hRest ▸ hs.perm.filter _
      recency := rfl
      order := hs.order.sublist (List.sublist_cons_self e l)
      used := fun e' hMem => hs.used e' (List.mem_cons_of_mem _ hMem)
      room := Nat.le_trans (Nat.le_succ _) hs.room }

/-- Entries are dropped from the front until there is room for one more. -/
theorem makeRoom (hs : Arranged config s l) :
    Arranged config (s.makeRoom s.recency) (l.drop (l.length + 1 - config.maxEntries)) := by
  rw [hs.recency]
  induction l generalizing s with
  | nil => simpa [Store.makeRoom] using hs
  | cons e rest ih =>
    rw [List.map_cons, Entry.mark, Store.makeRoom]
    split
    · rename_i hFull
      rw [hs.size_eq, hs.config_eq] at hFull
      have hNext := ih hs.dropFront
      rw [List.length_cons] at hFull ⊢
      rw [Nat.sub_add_comm hFull, List.drop_succ_cons]
      exact hNext
    · rename_i hFree
      rw [hs.size_eq, hs.config_eq] at hFree
      rw [Nat.sub_eq_zero_of_le (by omega), List.drop_zero]
      exact hs

/-! ### Requests -/

/-- A value that is stored again takes the place of the old one. -/
theorem put_again {old : Entry α} (hs : Arranged config s l) (hSome : config.maxEntries ≠ 0)
    (hFind : s.find? key = some old) (value : α) (cachedAt : Int) :
    Arranged config (s.put now key value cachedAt)
      (l.filter (·.key ≠ key) ++ [⟨key, value, cachedAt, now, s.uses + 1⟩]) := by
  obtain ⟨hMem, rfl⟩ := hs.find?_eq_some_iff.mp hFind
  have hNew : ∀ e' ∈ l, e'.lastUsed < s.uses + 1 := fun e' hMem => Nat.lt_succ_of_le (hs.used e' hMem)
  have hTicked : Arranged config { s with uses := s.uses + 1 } l :=
    { hs with used := fun e' hMem => Nat.le_of_lt (hNew e' hMem) }
  have hLess : (l.filter (·.key ≠ old.key)).length < l.length :=
    List.length_filter_lt_length_iff_exists.mpr ⟨old, hMem, by simp⟩
  have hFound : ({ s with uses := s.uses + 1 } : Store α).find? old.key = some old := hFind
  rw [Store.put, if_neg (hs.config_eq ▸ hSome)]
  simp only [hFound, Option.isSome_some, if_true]
  exact hTicked.insert (e := ⟨old.key, value, cachedAt, now, s.uses + 1⟩) hNew (Nat.le_refl _)
    (Nat.lt_of_lt_of_le hLess hs.room)

/-- A value under a new key may cost the entry at the front its place. -/
theorem put_new (hs : Arranged config s l) (hSome : config.maxEntries ≠ 0)
    (hFind : s.find? key = none) (value : α) (cachedAt : Int) :
    Arranged config (s.put now key value cachedAt)
      (l.drop (l.length + 1 - config.maxEntries) ++ [⟨key, value, cachedAt, now, s.uses + 1⟩]) := by
  have hNew : ∀ e' ∈ l, e'.lastUsed < s.uses + 1 := fun e' hMem => Nat.lt_succ_of_le (hs.used e' hMem)
  have hTicked : Arranged config { s with uses := s.uses + 1 } l :=
    { hs with used := fun e' hMem => Nat.le_of_lt (hNew e' hMem) }
  have hSub := List.drop_sublist (l.length + 1 - config.maxEntries) l
  have hOther : (l.drop (l.length + 1 - config.maxEntries)).filter (·.key ≠ key) =
      l.drop (l.length + 1 - config.maxEntries) :=
    List.filter_eq_self.mpr fun e' hMem => by
      simpa using hs.find?_eq_none_iff.mp hFind e' (hSub.mem hMem)
  have hUses := makeRoom_uses { s with uses := s.uses + 1 } s.recency
  have hRoom := hs.room
  have hFound : ({ s with uses := s.uses + 1 } : Store α).find? key = none := hFind
  rw [Store.put, if_neg (hs.config_eq ▸ hSome)]
  simp only [hFound, Option.isSome_none, Bool.false_eq_true, if_false, hUses]
  have hInserted := hTicked.makeRoom.insert (e := ⟨key, value, cachedAt, now, s.uses + 1⟩)
    (fun e' hMem => hNew e' (hSub.mem hMem)) (Nat.le_of_eq hUses.symm)
    (by rw [hOther, List.length_drop]; omega)
  rwa [hOther] at hInserted

end Arranged

/-- What a store does when it is asked. -/
def Store.respond (s : Store α) (now : Nat) : Request α → Answer α × Store α
  | .put key value cachedAt => (.stored, s.put now key value cachedAt)
  | .get key => (.found (s.get now key).1, (s.get now key).2)
  | .delete key => (.deleted (s.delete key).1, (s.delete key).2)
  | .clear => (.removed s.clear.1, s.clear.2)
  | .purge => (.removed (s.purge now).1, (s.purge now).2)

namespace Arranged

variable {config : CacheConfig} {s : Store α}

theorem respond_put (hs : Arranged config s l) (now : Nat) (key : CacheKey) (value : α)
    (cachedAt : Int) : ∃ l', Arranged config (s.put now key value cachedAt) l' ∧
      Queue.put config (l.map Entry.held) ⟨key, value, cachedAt, now⟩ = l'.map Entry.held := by
  by_cases hSome : config.maxEntries = 0
  · rw [Store.put, hs.config_eq, if_pos hSome, Queue.put, if_pos hSome]
    exact ⟨l, hs, rfl⟩
  · cases hFind : s.find? key with
    | some old =>
      refine ⟨_, hs.put_again hSome hFind value cachedAt, ?_⟩
      rw [Queue.put, if_neg hSome, hs.find?_held, hFind, if_pos (by simp), without_held,
        List.map_append]
      rfl
    | none =>
      have hRoom := hs.room
      refine ⟨_, hs.put_new hSome hFind value cachedAt, ?_⟩
      rw [Queue.put, if_neg hSome, hs.find?_held, hFind, if_neg (by simp), List.length_map,
        List.map_append]
      split
      · rw [show l.length + 1 - config.maxEntries = 1 by omega, List.drop_one, List.map_tail]
        rfl
      · rw [show l.length + 1 - config.maxEntries = 0 by omega, List.drop_zero]
        rfl

theorem respond_get (hs : Arranged config s l) (now : Nat) (key : CacheKey) :
    ∃ l', Arranged config (s.get now key).2 l' ∧
      Queue.respond config (l.map Entry.held) now (.get key) =
        (.found (s.get now key).1, l'.map Entry.held) := by
  obtain rfl := hs.config_eq
  rw [Store.get, Queue.respond, hs.find?_held, without_held]
  cases hFind : s.find? key with
  | none =>
    have hMiss : Arranged s.config { s with misses := s.misses + 1 } l := { hs with }
    exact ⟨l, hMiss, rfl⟩
  | some e =>
    have hAge : e.held.isExpired s.config.ttlMs now = e.isExpired s.config.ttlMs now := rfl
    dsimp only [Option.map_some]
    rw [hAge]
    split
    · have hRemoved := hs.remove key
      have hExpired : Arranged s.config
          { (s.remove key).2 with expirations := s.expirations + 1, misses := s.misses + 1 }
          (l.filter (·.key ≠ key)) := { hRemoved with }
      exact ⟨_, hExpired, rfl⟩
    · have hHit : Arranged s.config { s with hits := s.hits + 1 } l := { hs with }
      refine ⟨_, hHit.touch hFind, ?_⟩
      rw [List.map_append]
      rfl

theorem respond_purge (hs : Arranged config s l) (now : Nat) :
    ∃ l', Arranged config (s.purge now).2 l' ∧
      Queue.respond config (l.map Entry.held) now .purge =
        (.removed (s.purge now).1, l'.map Entry.held) := by
  obtain rfl := hs.config_eq
  set expired := (s.entries.filter (·.isExpired s.config.ttlMs now)).map Entry.key with hExpired
  have hMem : ∀ e ∈ l, e.key ∈ expired ↔ e.isExpired s.config.ttlMs now = true := by
    intro e hMem
    constructor
    · intro hKey
      obtain ⟨e', hMem', hEq⟩ := List.mem_map.mp hKey
      obtain ⟨hMem', hAge⟩ := List.mem_filter.mp hMem'
      rwa [← List.inj_on_of_nodup_map hs.nodup_keys hMem' (hs.perm.mem_iff.mp hMem) hEq]
    · exact fun hAge => List.mem_map_of_mem (List.mem_filter.mpr ⟨hs.perm.mem_iff.mp hMem, hAge⟩)
  have hCount : (l.map Entry.held).countP (·.isExpired s.config.ttlMs now) = expired.length := by
    rw [hExpired, List.countP_map, List.length_map, ← List.countP_eq_length_filter,
      ← hs.perm.countP_eq]
    rfl
  have hFresh : (l.map Entry.held).filter (!·.isExpired s.config.ttlMs now) =
      (l.filter (·.key ∉ expired)).map Entry.held := by
    rw [List.filter_map]
    congr 1
    refine List.filter_congr fun e hHas => ?_
    have hAge : e.held.isExpired s.config.ttlMs now = e.isExpired s.config.ttlMs now := rfl
    rw [Bool.eq_iff_iff, decide_eq_true_iff, hMem e hHas, Function.comp_apply, hAge]
    simp
  have hPurged : Arranged s.config (s.purge now).2 (l.filter (·.key ∉ expired)) :=
    { hs.removeAll expired with }
  refine ⟨_, hPurged, ?_⟩
  rw [Queue.respond, hCount, hFresh]
  rfl

/-- Every request changes store and queue alike, and both give the same answer. -/
theorem respond (hs : Arranged config s l) (now : Nat) (r : Request α) :
    ∃ l', Arranged config (s.respond now r).2 l' ∧
      Queue.respond config (l.map Entry.held) now r =
        ((s.respond now r).1, l'.map Entry.held) := by
  cases r with
  | put key value cachedAt =>
    obtain ⟨l', hNext, hPut⟩ := hs.respond_put now key value cachedAt
    exact ⟨l', hNext, by rw [Queue.respond, hPut]; rfl⟩
  | get key => exact hs.respond_get now key
  | delete key =>
    refine ⟨_, hs.remove key, ?_⟩
    rw [Queue.respond, hs.find?_held, without_held, Option.isSome_map, Store.respond, Store.delete,
      Store.remove]
    cases s.find? key <;> rfl
  | clear =>
    refine ⟨[], { Arranged.empty config with config_eq := hs.config_eq, used := by simp }, ?_⟩
    rw [Queue.respond, List.length_map, ← hs.size_eq]
    rfl
  | purge => exact hs.respond_purge now

theorem answerAll (hs : Arranged config s l) (requests : List (Nat × Request α)) :
    ∃ l', Arranged config (Cache.answerAll Store.respond s requests).2 l' ∧
      Cache.answerAll (Queue.respond config) (l.map Entry.held) requests =
        ((Cache.answerAll Store.respond s requests).1, l'.map Entry.held) := by
  induction requests generalizing s l with
  | nil => exact ⟨l, hs, rfl⟩
  | cons r rest ih =>
    obtain ⟨l₁, hFirst, hAnswer⟩ := hs.respond r.1 r.2
    obtain ⟨l₂, hRest, hAnswers⟩ := ih hFirst
    refine ⟨l₂, hRest, ?_⟩
    rw [Cache.answerAll, hAnswer]
    dsimp only
    rw [hAnswers]
    rfl

end Arranged

/-! ## Any requests -/

/-- Whatever an empty store is asked, it answers like the queue, and it holds what the queue holds. Its
marks are the stamps of its entries, each with its key, and it never holds too much. A key has the value
that was put under it last, unless that has been taken away since or is too old. -/
theorem Store.answers_as_queue (config : CacheConfig) (requests : List (Nat × Request α)) (now : Nat)
    (hClock : ∀ r ∈ requests, r.1 ≤ now) :
    ∃ answers s, answerAll Store.respond (Store.empty config : Store α) requests = (answers, s) ∧
      answerAll (Queue.respond config) [] requests = (answers, s.queue) ∧
      (s.entries.map Entry.key).Nodup ∧ s.recency.Pairwise (·.1 < ·.1) ∧
      (s.entries.map fun e => (e.lastUsed, e.key)).Perm s.recency ∧
      s.entries.length ≤ config.maxEntries ∧
      ∀ key value cachedAt, (s.get now key).1 = some (value, cachedAt) ↔
        config.maxEntries ≠ 0 ∧ ∃ inserted, now - inserted < config.ttlMs ∧
          Queue.Stands config requests ⟨key, value, cachedAt, inserted⟩ := by
  obtain ⟨l, hs, hAnswers⟩ := (Arranged.empty (α := α) config).answerAll requests
  refine ⟨_, _, rfl, ?_, hs.nodup_keys, ?_, ?_, ?_, fun key value cachedAt => ?_⟩
  · rw [hs.queue_eq]
    exact hAnswers
  · rw [hs.recency, List.pairwise_map]
    exact hs.order.stamps
  · rw [hs.recency]
    exact (hs.perm.map Entry.mark).symm
  · exact hs.perm.length_eq ▸ hs.room
  · obtain ⟨l', -, hGet⟩ := hs.respond_get now key
    have hAfter : Queue.after config requests = l.map Entry.held := by
      rw [Queue.after]
      exact congrArg Prod.snd hAnswers
    rw [← Queue.respond_get_iff hClock, hAfter, hGet]
    simp

/-- Three places are looked up with room for two. -/
def lookups : List (Nat × Request Nat) :=
  [(0, .put ⟨"place", "a"⟩ 1 0), (10, .put ⟨"place", "b"⟩ 2 10), (20, .get ⟨"place", "a"⟩),
    (30, .put ⟨"place", "c"⟩ 3 30), (40, .get ⟨"place", "b"⟩)]

theorem Store.answers_as_queue_lookups :
    (∀ r ∈ lookups, r.1 ≤ 65) ∧
      ∃ s, answerAll Store.respond (Store.empty ⟨2, 60⟩) lookups =
          ([.stored, .stored, .found (some (1, 0)), .stored, .found none], s) ∧
        s.queue = [⟨⟨"place", "a"⟩, 1, 0, 0⟩, ⟨⟨"place", "c"⟩, 3, 30, 30⟩] ∧
        (s.get 65 ⟨"place", "a"⟩).1 = none ∧ (s.get 65 ⟨"place", "c"⟩).1 = some (3, 30) ∧
        ∃ inserted, 65 - inserted < 60 ∧
          Queue.Stands ⟨2, 60⟩ lookups ⟨⟨"place", "c"⟩, 3, 30, inserted⟩ := by
  have hClock : ∀ r ∈ lookups, r.1 ≤ 65 := by simp [lookups]
  obtain ⟨answers, s, hRun, hQueue, -, -, -, -, hGet⟩ :=
    Store.answers_as_queue ⟨2, 60⟩ lookups 65 hClock
  have hHeld : answerAll (Queue.respond ⟨2, 60⟩) [] lookups =
      ([.stored, .stored, .found (some (1, 0)), .stored, .found none],
        [⟨⟨"place", "a"⟩, 1, 0, 0⟩, ⟨⟨"place", "c"⟩, 3, 30, 30⟩]) := by rfl
  obtain ⟨rfl, hSame⟩ := Prod.mk.inj (hHeld.symm.trans hQueue)
  have hFound : (s.get 65 ⟨"place", "c"⟩).1 = some (3, 30) := by
    obtain rfl := (Prod.mk.inj hRun).2
    rfl
  have hOld : (s.get 65 ⟨"place", "a"⟩).1 = none := by
    obtain rfl := (Prod.mk.inj hRun).2
    rfl
  exact ⟨hClock, s, hRun, hSame.symm, hOld, hFound, ((hGet _ _ _).mp hFound).2⟩

end FormulaOutline.Cache
