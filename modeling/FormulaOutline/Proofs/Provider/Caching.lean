import FormulaOutline.Proofs.Cache.Keys
import FormulaOutline.Proofs.Cache.Stores
import FormulaOutline.Proofs.Calendar.Writing
import FormulaOutline.Provider.Fixed
import Mathlib.Data.Set.Function

/-!
# A cache changes no answer

A provider that gives the same answer to the same request may be asked through a cache: whatever has
been asked before, at whatever times, the answer is one that the provider gives for the key of the
request.

* `Arranged.get`, `Arranged.put`, `Arranged.get_cases`: what reading and storing do to the entries of a
  store.
* `Source.ask_cases`: a request finds an entry (`Hit`), or the provider is asked (`Miss`).
* `Source.Recalls`: all that is stored has been said by the provider before. Requests keep this.
* `Source.Lacks`: nothing is stored under a key. Requests that fail keep this, and so do those with
  other keys.
* `Source.Transparent`: what a request through a cache comes to after any other ones
  (`Source.transparent_cached`).
* `ProviderKind.cached_transparent`: the providers of each kind. The keys of places and flights tell the
  request, so that the answer is the one to the request itself.
* `Lookup`: the requests for places and flights; `keys_separate` says what has the same key.
-/

namespace FormulaOutline

open Calendar Geo Cache

/-! ## Entries -/

namespace Cache

variable {α : Type} {config : CacheConfig} {s : Store α} {l : List (Entry α)} {e : Entry α}
  {key : CacheKey} {now : Nat}

theorem Arranged.proper (hs : Arranged config s l) : Queue.Proper config (l.map Entry.held) where
  keys := by
    rw [List.map_map]
    exact hs.order.keys
  room := (List.length_map _).trans_le hs.room

theorem Arranged.mem_iff (hs : Arranged config s l) : e ∈ s.entries ↔ e ∈ l := hs.perm.mem_iff.symm

/-- Reading changes no more of an entry than its stamp. -/
theorem Arranged.get (hs : Arranged config s l) (now : Nat) (key : CacheKey) :
    ∃ l', Arranged config (s.get now key).2 l' ∧
      ∀ e ∈ (s.get now key).2.entries, ∃ e' ∈ s.entries, e'.held = e.held := by
  obtain ⟨l', hs', hGet⟩ := hs.respond_get now key
  refine ⟨l', hs', fun e hMem => ?_⟩
  have hHeld : e.held ∈ (Queue.respond config (l.map Entry.held) now (.get key)).2 := by
    rw [hGet]
    exact List.mem_map_of_mem (hs'.mem_iff.mp hMem)
  rcases hs.proper.mem_respond hHeld with ⟨-, hPut⟩ | ⟨hOld, -⟩
  · cases hPut
  · obtain ⟨e', hMem', hSame⟩ := List.mem_map.mp hOld
    exact ⟨e', hs.mem_iff.mpr hMem', hSame⟩

/-- Storing a value adds no entry but the one of the value. -/
theorem Arranged.put (hs : Arranged config s l) (now : Nat) (key : CacheKey) (value : α)
    (cachedAt : Int) :
    ∃ l', Arranged config (s.put now key value cachedAt) l' ∧
      ∀ e ∈ (s.put now key value cachedAt).entries,
        e.held = ⟨key, value, cachedAt, now⟩ ∨ ∃ e' ∈ s.entries, e'.held = e.held := by
  obtain ⟨l', hs', hPut⟩ := hs.respond_put now key value cachedAt
  refine ⟨l', hs', fun e hMem => ?_⟩
  have hHeld : e.held ∈
      (Queue.respond config (l.map Entry.held) now (.put key value cachedAt)).2 := by
    rw [Queue.respond, hPut]
    exact List.mem_map_of_mem (hs'.mem_iff.mp hMem)
  rcases hs.proper.mem_respond hHeld with ⟨-, hNew⟩ | ⟨hOld, -⟩
  · rw [Queue.origin, Prod.mk.injEq, Request.put.injEq] at hNew
    obtain ⟨hInserted, hKey, hValue, hCachedAt⟩ := hNew
    left
    rw [hInserted, hKey, hValue, hCachedAt]
  · obtain ⟨e', hMem', hSame⟩ := List.mem_map.mp hOld
    exact Or.inr ⟨e', hs.mem_iff.mpr hMem', hSame⟩

/-- What is read is an entry that is not too old. -/
theorem Arranged.get_cases (hs : Arranged config s l) (now : Nat) (key : CacheKey) :
    (∃ e ∈ s.entries, e.key = key ∧ e.isExpired config.ttlMs now = false ∧
      (s.get now key).1 = some (e.value, e.cachedAt)) ∨
    ((∀ e ∈ s.entries, e.key = key → e.isExpired config.ttlMs now = true) ∧
      (s.get now key).1 = none ∧ ∀ e ∈ (s.get now key).2.entries, e.key ≠ key) := by
  obtain rfl := hs.config_eq
  rw [Store.get]
  cases hFind : s.find? key with
  | none =>
    have hNone : ∀ e ∈ s.entries, e.key ≠ key := fun e hMem =>
      hs.find?_eq_none_iff.mp hFind e (hs.mem_iff.mp hMem)
    exact Or.inr ⟨fun e hMem hKey => (hNone e hMem hKey).elim, rfl, hNone⟩
  | some e =>
    obtain ⟨hMem, hKey⟩ := hs.find?_eq_some_iff.mp hFind
    cases hAge : e.isExpired s.config.ttlMs now with
    | false =>
      simp only [hAge, Bool.false_eq_true, if_false]
      exact Or.inl ⟨e, hs.mem_iff.mpr hMem, hKey, hAge, rfl⟩
    | true =>
      dsimp only
      rw [if_pos hAge]
      refine Or.inr ⟨fun e' hMem' hKey' => ?_, rfl, fun e' hMem' => ?_⟩
      · have hSame : s.find? key = some e' := hs.find?_eq_some_iff.mpr ⟨hs.mem_iff.mp hMem', hKey'⟩
        obtain rfl := Option.some.inj (hFind.symm.trans hSame)
        exact hAge
      · rw [Store.remove, hFind] at hMem'
        simpa using (List.mem_filter.mp hMem').2

end Cache

/-! ## Asking through a cache -/

namespace Source

variable {κ ρ : Type} {s : Source κ ρ} {config : CacheConfig} {store : Store ρ}
  {l : List (Entry ρ)} {key : CacheKey} {asked : List κ}

/-- What the provider itself says. -/
def inner (s : Source κ ρ) (k : κ) : Except ProviderError ρ := (s.request k).1

/-- What the cache holds. -/
def entries (s : Source κ ρ) : List (Entry ρ) := (s.cache.map Store.entries).getD []

/-- An entry that is not too old is there for a request. -/
def Holds (s : Source κ ρ) (now : Nat) (k : κ) : Prop :=
  ∃ store, s.cache = some store ∧
    ∃ e ∈ store.entries, e.key = s.key k ∧ e.isExpired store.config.ttlMs now = false

/-- There is a cache, and it is in order. -/
def IsCached (s : Source κ ρ) (config : CacheConfig) : Prop :=
  ∃ store l, s.cache = some store ∧ Arranged config store l

theorem isCached_cached (s : Source κ ρ) (config : CacheConfig) :
    (s.cached config).IsCached config :=
  ⟨_, [], rfl, Arranged.empty config⟩

theorem entries_eq (hCache : s.cache = some store) : s.entries = store.entries := by
  rw [entries, hCache]
  rfl

theorem IsCached.holds_iff (hs : s.IsCached config) {now : Nat} {k : κ} :
    s.Holds now k ↔ ∃ e ∈ s.entries, e.key = s.key k ∧ e.isExpired config.ttlMs now = false := by
  obtain ⟨store, l, hCache, hStore⟩ := hs
  rw [entries_eq hCache, ← hStore.config_eq]
  constructor
  · rintro ⟨store', hCache', hEntry⟩
    obtain rfl := Option.some.inj (hCache.symm.trans hCache')
    exact hEntry
  · exact fun hEntry => ⟨store, hCache, hEntry⟩

/-- A value is read from the store, or the provider is asked and what it says is stored unless it is
an error. -/
theorem ask_eq (hCache : s.cache = some store) (m : Moment) (k : κ) :
    s.ask m k =
      match store.get m.elapsed (s.key k) with
      | (some found, store) => (.ok found.1, { s with cache := some store })
      | (none, store) =>
          (s.inner k,
            { s with
              calls := s.calls + 1
              cache := some
                (match s.inner k with
                | .ok value => store.put m.elapsed (s.key k) value m.wall
                | .error _ => store) }) := by
  have hRequest : s.request k = (s.inner k, { s with calls := s.calls + 1 }) := rfl
  rw [ask, hCache]
  dsimp only
  rw [Store.readThrough, Store.readStored, if_neg (by decide)]
  rcases store.get m.elapsed (s.key k) with ⟨- | found, rest⟩
  · dsimp only
    rw [hRequest]
    cases s.inner k <;> rfl
  · rfl

/-- A request that finds an entry. -/
structure Hit (s : Source κ ρ) (config : CacheConfig) (m : Moment) (k : κ) : Prop where
  found : ∃ e ∈ s.entries, e.key = s.key k ∧ e.isExpired config.ttlMs m.elapsed = false ∧
    (s.ask m k).1 = .ok e.value
  calls : (s.ask m k).2.calls = s.calls
  kept : ∀ e ∈ (s.ask m k).2.entries, ∃ e' ∈ s.entries, e'.held = e.held

/-- A request that finds none: the provider is asked, and what it says is stored unless it fails. -/
structure Miss (s : Source κ ρ) (config : CacheConfig) (m : Moment) (k : κ) : Prop where
  expired : ∀ e ∈ s.entries, e.key = s.key k → e.isExpired config.ttlMs m.elapsed = true
  answer : (s.ask m k).1 = s.inner k
  calls : (s.ask m k).2.calls = s.calls + 1
  kept : ∀ e ∈ (s.ask m k).2.entries, (e.key = s.key k ∧ s.inner k = .ok e.value) ∨
    (e.key ≠ s.key k ∧ ∃ e' ∈ s.entries, e'.held = e.held)

theorem ask_cases (hs : s.IsCached config) (m : Moment) (k : κ) :
    (s.ask m k).2.IsCached config ∧ (s.Hit config m k ∨ s.Miss config m k) := by
  obtain ⟨store, l, hCache, hStore⟩ := hs
  obtain ⟨l', hRest, hOld⟩ := hStore.get m.elapsed (s.key k)
  have hAsk := ask_eq hCache m k
  rcases hStore.get_cases m.elapsed (s.key k) with
    ⟨e, hMem, hKey, hAge, hFound⟩ | ⟨hExpired, hFound, hGone⟩
  · rw [← Prod.mk.eta (p := store.get m.elapsed (s.key k)), hFound] at hAsk
    dsimp only at hAsk
    refine ⟨⟨_, l', by rw [hAsk], hRest⟩,
      Or.inl ⟨⟨e, ?_, hKey, hAge, by rw [hAsk]⟩, by rw [hAsk], ?_⟩⟩
    · rwa [entries_eq hCache]
    · rw [hAsk, entries_eq hCache]
      exact hOld
  · rw [← Prod.mk.eta (p := store.get m.elapsed (s.key k)), hFound] at hAsk
    dsimp only at hAsk
    have hKept : ∀ e ∈ (store.get m.elapsed (s.key k)).2.entries,
        e.key ≠ s.key k ∧ ∃ e' ∈ s.entries, e'.held = e.held := fun e hMem =>
      ⟨hGone e hMem, by rw [entries_eq hCache]; exact hOld e hMem⟩
    cases hInner : s.inner k with
    | error error =>
      rw [hInner] at hAsk
      dsimp only at hAsk
      refine ⟨⟨_, l', by rw [hAsk], hRest⟩, Or.inr ⟨?_, ?_, by rw [hAsk], ?_⟩⟩
      · rwa [entries_eq hCache]
      · rw [hAsk, hInner]
      · rw [hAsk]
        exact fun e hMem => Or.inr (hKept e hMem)
    | ok value =>
      rw [hInner] at hAsk
      dsimp only at hAsk
      obtain ⟨l'', hNew, hPut⟩ := hRest.put m.elapsed (s.key k) value m.wall
      refine ⟨⟨_, l'', by rw [hAsk], hNew⟩, Or.inr ⟨?_, ?_, by rw [hAsk], ?_⟩⟩
      · rwa [entries_eq hCache]
      · rw [hAsk, hInner]
      · rw [hAsk]
        intro e hMem
        rcases hPut e hMem with hHeld | ⟨e', hMem', hHeld⟩
        · rw [Entry.held, Held.mk.injEq] at hHeld
          exact Or.inl ⟨hHeld.1, hHeld.2.1 ▸ hInner⟩
        · obtain ⟨hKey, e'', hMem'', hHeld'⟩ := hKept e' hMem'
          have hSame := congrArg Held.key hHeld
          exact Or.inr ⟨fun h => hKey (hSame.trans h), e'', hMem'', hHeld'.trans hHeld⟩

/-! ## One request after the other -/

/-- The source after requests, each at its moment. -/
def after (s : Source κ ρ) (requests : List (Moment × κ)) : Source κ ρ :=
  requests.foldl (fun s r => (s.ask r.1 r.2).2) s

theorem after_append (s : Source κ ρ) (requests : List (Moment × κ)) (r : Moment × κ) :
    s.after (requests ++ [r]) = ((s.after requests).ask r.1 r.2).2 := by
  rw [after, List.foldl_append]
  rfl

theorem ask_same (s : Source κ ρ) (m : Moment) (k : κ) :
    ∃ calls cache, (s.ask m k).2 = { s with calls, cache } := by
  cases hCache : s.cache with
  | none =>
    have hAsk : s.ask m k = s.request k := by rw [ask, hCache]
    exact ⟨s.calls + 1, s.cache, congrArg Prod.snd hAsk⟩
  | some store =>
    rw [ask_eq hCache]
    rcases store.get m.elapsed (s.key k) with ⟨- | found, rest⟩
    · exact ⟨_, _, rfl⟩
    · exact ⟨s.calls, _, rfl⟩

/-- Requests change the cache and the count, but not the provider. -/
theorem after_same (s : Source κ ρ) (requests : List (Moment × κ)) :
    ∃ calls cache, s.after requests = { s with calls, cache } := by
  induction requests using List.reverseRecOn with
  | nil => exact ⟨s.calls, s.cache, rfl⟩
  | append_singleton requests r ih =>
    obtain ⟨calls, cache, hAfter⟩ := ih
    rw [after_append, hAfter]
    exact ask_same { s with calls, cache } r.1 r.2

theorem key_ask (s : Source κ ρ) (m : Moment) (k : κ) : (s.ask m k).2.key = s.key := by
  obtain ⟨calls, cache, hAsk⟩ := s.ask_same m k
  rw [hAsk]

theorem inner_ask (s : Source κ ρ) (m : Moment) (k : κ) : (s.ask m k).2.inner = s.inner := by
  obtain ⟨calls, cache, hAsk⟩ := s.ask_same m k
  rw [hAsk]
  rfl

theorem key_after (s : Source κ ρ) (requests : List (Moment × κ)) :
    (s.after requests).key = s.key := by
  obtain ⟨calls, cache, hAfter⟩ := s.after_same requests
  rw [hAfter]

theorem inner_after (s : Source κ ρ) (requests : List (Moment × κ)) :
    (s.after requests).inner = s.inner := by
  obtain ⟨calls, cache, hAfter⟩ := s.after_same requests
  rw [hAfter]
  rfl

/-! ## What is stored has been said -/

/-- Every entry is what the provider says to one of the requests. -/
structure Recalls (s : Source κ ρ) (config : CacheConfig) (asked : List κ) : Prop where
  cached : s.IsCached config
  said : ∀ e ∈ s.entries, ∃ k ∈ asked, s.key k = e.key ∧ s.inner k = .ok e.value

theorem Recalls.ask (hs : s.Recalls config asked) (m : Moment) (k : κ) :
    (s.ask m k).2.Recalls config (k :: asked) := by
  obtain ⟨hCached, hCases⟩ := ask_cases hs.cached m k
  refine ⟨hCached, fun e hMem => ?_⟩
  rw [key_ask, inner_ask]
  have hOld : ∀ e' ∈ s.entries, e'.held = e.held →
      ∃ k' ∈ k :: asked, s.key k' = e.key ∧ s.inner k' = .ok e.value := by
    intro e' hMem' hHeld
    obtain ⟨k', hAsked, hKey, hSaid⟩ := hs.said e' hMem'
    refine ⟨k', List.mem_cons_of_mem _ hAsked, hKey.trans (congrArg Held.key hHeld), ?_⟩
    exact hSaid.trans (congrArg (Except.ok ·.value) hHeld)
  rcases hCases with hHit | hMiss
  · obtain ⟨e', hMem', hHeld⟩ := hHit.kept e hMem
    exact hOld e' hMem' hHeld
  · rcases hMiss.kept e hMem with ⟨hKey, hSaid⟩ | ⟨-, e', hMem', hHeld⟩
    · exact ⟨k, List.mem_cons_self, hKey.symm, hSaid⟩
    · exact hOld e' hMem' hHeld

theorem recalls_after (s : Source κ ρ) (config : CacheConfig) (requests : List (Moment × κ)) :
    ((s.cached config).after requests).Recalls config (requests.map Prod.snd) := by
  induction requests using List.reverseRecOn with
  | nil => exact ⟨s.isCached_cached config, fun e hMem => by cases hMem⟩
  | append_singleton requests r ih =>
    rw [after_append]
    obtain ⟨hCached, hSaid⟩ := ih.ask r.1 r.2
    refine ⟨hCached, fun e hMem => ?_⟩
    obtain ⟨k, hAsked, hSame⟩ := hSaid e hMem
    exact ⟨k, by simpa [or_comm] using hAsked, hSame⟩

/-! ## What is not stored -/

/-- Nothing is stored under a key. -/
def Lacks (s : Source κ ρ) (key : CacheKey) : Prop := ∀ e ∈ s.entries, e.key ≠ key

/-- A provider that fails says nothing that could be stored. -/
theorem lacks_of_error (hs : s.IsCached config) {m : Moment} {k : κ} {error : ProviderError}
    (h : (s.ask m k).1 = .error error) : (s.ask m k).2.Lacks (s.key k) := by
  rcases (ask_cases hs m k).2 with hHit | hMiss
  · obtain ⟨e, -, -, -, hFound⟩ := hHit.found
    cases hFound.symm.trans h
  · intro e hMem
    rcases hMiss.kept e hMem with ⟨-, hSaid⟩ | ⟨hKey, -⟩
    · cases (hMiss.answer.symm.trans h).symm.trans hSaid
    · exact hKey

theorem Lacks.ask (hs : s.IsCached config) (hLacks : s.Lacks key) {m : Moment} {k : κ}
    (hFails : s.key k = key → ∃ error, s.inner k = .error error) : (s.ask m k).2.Lacks key := by
  intro e hMem hKey
  have hOld : ∀ e' ∈ s.entries, e'.held ≠ e.held := fun e' hMem' hHeld =>
    hLacks e' hMem' ((congrArg Held.key hHeld).trans hKey)
  rcases (ask_cases hs m k).2 with hHit | hMiss
  · obtain ⟨e', hMem', hHeld⟩ := hHit.kept e hMem
    exact hOld e' hMem' hHeld
  · rcases hMiss.kept e hMem with ⟨hSame, hSaid⟩ | ⟨-, e', hMem', hHeld⟩
    · obtain ⟨error, hError⟩ := hFails (hSame.symm.trans hKey)
      cases hError.symm.trans hSaid
    · exact hOld e' hMem' hHeld

theorem Lacks.after (hs : s.IsCached config) (hLacks : s.Lacks key)
    {requests : List (Moment × κ)}
    (hFails : ∀ r ∈ requests, s.key r.2 = key → ∃ error, s.inner r.2 = .error error) :
    (s.after requests).IsCached config ∧ (s.after requests).Lacks key := by
  induction requests using List.reverseRecOn with
  | nil => exact ⟨hs, hLacks⟩
  | append_singleton requests r ih =>
    obtain ⟨hCached, hBefore⟩ := ih fun r' hMem => hFails r' (List.mem_append_left _ hMem)
    rw [after_append]
    refine ⟨(ask_cases hCached r.1 r.2).1, Lacks.ask hCached hBefore ?_⟩
    rw [key_after, inner_after]
    exact hFails r (List.mem_append_right _ (List.mem_singleton_self r))

/-! ## Transparency -/

/-- What a request comes to after requests to a source. -/
structure Transparent (first : Source κ ρ) (before : List (Moment × κ)) (m : Moment) (k : κ) :
    Prop where
  /-- The provider gives this answer to a request with the same key that has been made by now. -/
  answered : ∃ k' ∈ k :: before.map Prod.snd, first.key k' = first.key k ∧
    ((first.after before).ask m k).1 = first.inner k'
  /-- Without an entry that is not too old the provider is asked once. -/
  asked : ¬(first.after before).Holds m.elapsed k →
    ((first.after before).ask m k).2.calls = (first.after before).calls + 1
  /-- With one it is not asked. -/
  spared : (first.after before).Holds m.elapsed k →
    ((first.after before).ask m k).2.calls = (first.after before).calls
  /-- What is stored is no failure. -/
  stored : ∀ e ∈ ((first.after before).ask m k).2.entries, ∃ k' ∈ k :: before.map Prod.snd,
    first.key k' = e.key ∧ first.inner k' = .ok e.value
  /-- After a failure the provider is asked again, unless a request with the same key has succeeded
  in between. -/
  asked_again : ∀ error, ((first.after before).ask m k).1 = .error error →
    ∀ between : List (Moment × κ),
      (∀ r ∈ between, first.key r.2 = first.key k → ∃ error, first.inner r.2 = .error error) →
      ∀ m' k', first.key k' = first.key k →
        let later := ((first.after before).ask m k).2.after between
        (later.ask m' k').1 = first.inner k' ∧ (later.ask m' k').2.calls = later.calls + 1

/-- A request that finds no entry under its key is put to the provider. -/
theorem miss_of_lacks (hs : s.IsCached config) {m : Moment} {k : κ} (hLacks : s.Lacks (s.key k)) :
    s.Miss config m k := by
  rcases (ask_cases hs m k).2 with hHit | hMiss
  · obtain ⟨e, hMem, hKey, -⟩ := hHit.found
    exact (hLacks e hMem hKey).elim
  · exact hMiss

theorem transparent_cached (s : Source κ ρ) (config : CacheConfig) (before : List (Moment × κ))
    (m : Moment) (k : κ) : (s.cached config).Transparent before m k := by
  have hBefore := s.recalls_after config before
  have hNow := hBefore.ask m k
  have hKeys := (s.cached config).key_after before
  have hInner := (s.cached config).inner_after before
  have hCases := (ask_cases hBefore.cached m k).2
  refine
    { answered := ?answered
      asked := fun hNone => ?asked
      spared := fun hHolds => ?spared
      stored := ?stored
      asked_again := fun error hError between hFails m' k' hSame => ?again }
  case answered =>
    rcases hCases with hHit | hMiss
    · obtain ⟨e, hMem, hKey, -, hFound⟩ := hHit.found
      obtain ⟨k', hAsked, hSame, hSaid⟩ := hBefore.said e hMem
      rw [hKeys] at hKey hSame
      rw [hInner] at hSaid
      exact ⟨k', List.mem_cons_of_mem _ hAsked, hSame.trans hKey, hFound.trans hSaid.symm⟩
    · exact ⟨k, List.mem_cons_self, rfl, hInner ▸ hMiss.answer⟩
  case asked =>
    rcases hCases with hHit | hMiss
    · obtain ⟨e, hMem, hKey, hAge, -⟩ := hHit.found
      exact (hNone (hBefore.cached.holds_iff.mpr ⟨e, hMem, hKey, hAge⟩)).elim
    · exact hMiss.calls
  case spared =>
    obtain ⟨e, hMem, hKey, hAge⟩ := hBefore.cached.holds_iff.mp hHolds
    rcases hCases with hHit | hMiss
    · exact hHit.calls
    · cases hAge.symm.trans (hMiss.expired e hMem hKey)
  case stored =>
    have hSaid := hNow.said
    rwa [key_ask, inner_ask, hKeys, hInner] at hSaid
  case again =>
    -- The failure has left nothing under the key, and nothing has been put there in between.
    have hLacks := lacks_of_error hBefore.cached hError
    rw [hKeys, ← hSame] at hLacks
    have hFailsLater : ∀ r ∈ between,
        ((s.cached config).after before).key r.2 = (s.cached config).key k' →
          ∃ error, ((s.cached config).after before).inner r.2 = .error error := by
      rw [hKeys, hInner, hSame]
      exact hFails
    rw [← key_ask, ← inner_ask] at hFailsLater
    obtain ⟨hCached, hLater⟩ := Lacks.after hNow.cached hLacks hFailsLater
    have hMiss := miss_of_lacks (m := m') (k := k') hCached (by rwa [key_after, key_ask, hKeys])
    refine ⟨?_, hMiss.calls⟩
    rw [hMiss.answer, inner_after, inner_ask, hInner]

end Source

/-! ## Providers of each kind -/

namespace ProviderKind

/-- What a provider of a kind is asked. -/
abbrev Request : ProviderKind → Type
  | routing => Location × Location
  | places => String
  | weather => Date × Location
  | flight => String × Option Date

/-- What a provider of a kind answers. -/
abbrev Report : ProviderKind → Type
  | routing => Route
  | places => Place
  | weather => WeatherReport
  | flight => FlightStatus

def keyOf (id : String) : (kind : ProviderKind) → kind.Request → CacheKey
  | routing => routeKey id
  | places => placeKey id
  | weather => weatherKey id
  | flight => flightKey id

def partsOf : (kind : ProviderKind) → kind.Request → List String
  | routing, ends => [ends.1.rounded, ends.2.rounded]
  | places, place => [place]
  | weather, day => [day.1.iso, day.2.rounded]
  | flight, trip => [trip.1, (trip.2.map Date.iso).getD ""]

/-- The bytes that the key of a request is the digest of. -/
def bytesOf (id : String) (kind : ProviderKind) (k : kind.Request) : List UInt8 :=
  keyBytes (kind.namespaceOf id) (kind.partsOf k)

/-- A provider that gives the same answer to the same request. -/
def source (kind : ProviderKind) (id : String)
    (answer : kind.Request → Except ProviderError kind.Report) : Source kind.Request kind.Report where
  id
  answer
  key := kind.keyOf id
  calls := 0
  failing := false
  cache := none

variable {id : String}

theorem keyOf_eq (kind : ProviderKind) (k : kind.Request) :
    kind.keyOf id k = .ofParts (kind.namespaceOf id) (kind.partsOf k) := by
  cases kind <;> rfl

/-- A flight without a date is no flight on a day, since no date is written as the empty text. -/
theorem flightParts_injective : Function.Injective (partsOf .flight) := by
  rintro ⟨number, date⟩ ⟨number', date'⟩ h
  obtain ⟨rfl, hDates⟩ := List.cons.inj h
  have hDate : (date.map Date.iso).getD "" = (date'.map Date.iso).getD "" := (List.cons.inj hDates).1
  cases date with
  | none =>
    cases date' with
    | none => rfl
    | some day' => exact (day'.iso_ne_empty hDate.symm).elim
  | some day =>
    cases date' with
    | none => exact (day.iso_ne_empty hDate).elim
    | some day' => rw [Date.iso_injective hDate]

theorem partsOf_injective {kind : ProviderKind} (hKind : kind = .places ∨ kind = .flight) :
    Function.Injective kind.partsOf := by
  rcases hKind with rfl | rfl
  · intro place place' h
    exact (List.cons.inj h).1
  · exact flightParts_injective

/-- Requests for places and flights have the same key only if their bytes collide. -/
theorem eq_of_keyOf_eq {kind : ProviderKind} (hKind : kind = .places ∨ kind = .flight)
    {asked : Set kind.Request} (hDigests : Set.InjOn sha256 (kind.bytesOf id '' asked))
    {k k' : kind.Request} (hAsked : k ∈ asked) (hAsked' : k' ∈ asked)
    (hKey : kind.keyOf id k = kind.keyOf id k') : k = k' := by
  rw [keyOf_eq, keyOf_eq, CacheKey.ofParts_eq_iff] at hKey
  have hBytes : kind.bytesOf id k = kind.bytesOf id k' :=
    hDigests (Set.mem_image_of_mem _ hAsked) (Set.mem_image_of_mem _ hAsked') hKey.2
  exact partsOf_injective hKind (keyBytes_injective hBytes).2

/-- Whatever has been asked before and however much time has passed, a request through a cache is
answered as the provider answers a request with the same key, and the provider is only asked if the
cache holds nothing for the request. A place or a flight is answered as the provider answers this very
request, if no two of the requests have the same digest. -/
theorem cached_transparent (kind : ProviderKind) (id : String)
    (answer : kind.Request → Except ProviderError kind.Report) (config : CacheConfig)
    (before : List (Moment × kind.Request)) (m : Moment) (k : kind.Request) :
    ((kind.source id answer).cached config).Transparent before m k ∧
      (kind = .places ∨ kind = .flight →
        Set.InjOn sha256 (kind.bytesOf id '' {k' | k' ∈ k :: before.map Prod.snd}) →
          ((((kind.source id answer).cached config).after before).ask m k).1 = answer k) := by
  have hTransparent := (kind.source id answer).transparent_cached config before m k
  refine ⟨hTransparent, fun hKind hDigests => ?_⟩
  obtain ⟨k', hAsked, hKey, hAnswer⟩ := hTransparent.answered
  have hSame : k' = k := eq_of_keyOf_eq hKind hDigests hAsked List.mem_cons_self hKey
  rw [hAnswer, hSame]
  rfl

/-- A flight that is known, but not on a given day. -/
def flightAnyDay : flight.Request → Except ProviderError FlightStatus
  | (number, none) => .ok (Fixed.flightBetween number "FRA" "JFK")
  | (number, some _) => .error (Fixed.notFound "mock-flight" number)

def firstOfMay : Date := ⟨2024, 5, 1, by decide⟩

/-- The flight is looked up on any day and on a given one. -/
def flightLookups : List (Moment × flight.Request) :=
  [(⟨0, 0⟩, "LH400", none), (⟨5, 5⟩, "LH400", some firstOfMay)]

theorem cached_transparent_flight :
    Set.InjOn sha256 (flight.bytesOf "mock-flight" ''
        {k | k ∈ ("LH400", some firstOfMay) :: flightLookups.map Prod.snd}) ∧
      ((flight.source "mock-flight" flightAnyDay).cached ⟨2, 60⟩).Transparent flightLookups ⟨20, 20⟩
        ("LH400", some firstOfMay) ∧
      ((((flight.source "mock-flight" flightAnyDay).cached ⟨2, 60⟩).after flightLookups).ask ⟨20, 20⟩
        ("LH400", some firstOfMay)).1 = .error (Fixed.notFound "mock-flight" "LH400") := by
  have hApart : sha256 (flight.bytesOf "mock-flight" ("LH400", none)) ≠
      sha256 (flight.bytesOf "mock-flight" ("LH400", some firstOfMay)) := by decide +kernel
  have hDigests : Set.InjOn sha256 (flight.bytesOf "mock-flight" ''
      {k | k ∈ ("LH400", some firstOfMay) :: flightLookups.map Prod.snd}) := by
    have hTwo : ∀ k ∈ ("LH400", some firstOfMay) :: flightLookups.map Prod.snd,
        k = ("LH400", none) ∨ k = ("LH400", some firstOfMay) := by simp [flightLookups]
    rintro - ⟨k, hAsked, rfl⟩ - ⟨k', hAsked', rfl⟩ hSame
    rcases hTwo k hAsked with rfl | rfl <;> rcases hTwo k' hAsked' with rfl | rfl
    · rfl
    · exact (hApart hSame).elim
    · exact (hApart hSame.symm).elim
    · rfl
  obtain ⟨hTransparent, hSame⟩ := cached_transparent .flight "mock-flight" flightAnyDay ⟨2, 60⟩
    flightLookups ⟨20, 20⟩ ("LH400", some firstOfMay)
  exact ⟨hDigests, hTransparent, hSame (Or.inr rfl) hDigests⟩

end ProviderKind

/-! ## Keys of places and flights -/

/-- A request for a place or a flight, and the id of the provider that it is put to. -/
inductive Lookup
  | place (id name : String)
  | flight (id number : String) (date : Option Date)

namespace Lookup

/-- The namespace of the request, by the kind of the provider and its id. -/
def domain : Lookup → String
  | place id _ => ProviderKind.places.namespaceOf id
  | flight id _ _ => ProviderKind.flight.namespaceOf id

def parts : Lookup → List String
  | place _ name => ProviderKind.partsOf .places name
  | flight _ number date => ProviderKind.partsOf .flight (number, date)

/-- The bytes that are digested for the request. -/
def bytes (a : Lookup) : List UInt8 := keyBytes a.domain a.parts

/-- The key of the request in the cache before the provider. -/
def key : Lookup → CacheKey
  | place id name => placeKey id name
  | flight id number date => flightKey id (number, date)

variable {a b : Lookup}

theorem key_eq (a : Lookup) : a.key = .ofParts a.domain a.parts := by
  cases a <;> rfl

/-- A request for a place has one part and one for a flight has two. -/
theorem eq_of_parts (hDomain : a.domain = b.domain) (hParts : a.parts = b.parts) : a = b := by
  have hId : ∀ {kind : ProviderKind} {id id' : String},
      kind.namespaceOf id = kind.namespaceOf id' → id = id' := fun h => String.append_right_inj _ |>.1 h
  cases a with
  | place id name =>
    cases b with
    | place id' name' => rw [hId hDomain, (List.cons.inj hParts).1]
    | flight id' number date => cases (List.cons.inj hParts).2
  | flight id number date =>
    cases b with
    | place id' name => cases (List.cons.inj hParts).2
    | flight id' number' date' =>
      obtain ⟨rfl, rfl⟩ := Prod.mk.inj (ProviderKind.flightParts_injective hParts)
      rw [hId hDomain]

theorem bytes_injective : Function.Injective bytes := fun _ _ h =>
  eq_of_parts (keyBytes_injective h).1 (keyBytes_injective h).2

end Lookup

/-- Different bytes with the same digest. -/
def Collide (x y : List UInt8) : Prop := x ≠ y ∧ sha256 x = sha256 y

/-- Different namespaces or parts have different bytes, and so have different requests for places and
flights, with and without a date. Their keys are therefore the same only if the digests of different
bytes are. -/
theorem keys_separate (ns ns' : String) (parts parts' : List String) (a b : Lookup) :
    (keyBytes ns parts = keyBytes ns' parts' ↔ ns = ns' ∧ parts = parts') ∧
      (a.bytes = b.bytes ↔ a = b) ∧
      (a.key = b.key ↔ a = b ∨ a.domain = b.domain ∧ Collide a.bytes b.bytes) := by
  refine ⟨⟨keyBytes_injective, ?_⟩, Lookup.bytes_injective.eq_iff, ?_⟩
  · rintro ⟨rfl, rfl⟩
    rfl
  · rw [a.key_eq, b.key_eq, CacheKey.ofParts_eq_iff]
    constructor
    · rintro ⟨hDomain, hDigest⟩
      by_cases hSame : a = b
      · exact .inl hSame
      · exact .inr ⟨hDomain, fun h => hSame (Lookup.bytes_injective h), hDigest⟩
    · rintro (rfl | ⟨hDomain, -, hDigest⟩)
      · exact ⟨rfl, rfl⟩
      · exact ⟨hDomain, hDigest⟩

end FormulaOutline
