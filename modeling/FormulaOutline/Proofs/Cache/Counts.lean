import FormulaOutline.Cache.Read
import FormulaOutline.Proofs.Cache.Stores
import Mathlib.Algebra.GroupWithZero.Nat

/-!
# What stores count

A store counts what it was looked up for, and the entries that had to give way or were too old. Nothing
is counted twice and nothing is forgotten: an entry that has come in is still there, or the store has
counted it, or somebody has been told that it was deleted or cleared.

A hit is counted when a value is found. Whoever reads through the store may still refuse the value,
because it is too old for the read at hand, and fetch another one. Such a read is counted as a hit and
is none.

* `Call`, `Store.turns`: a store at work, with the turn that each request has.
* `Turn.adds`, `Turn.deletes`, `Turn.cleared`: entries that come in, and entries that go with the
  knowledge of somebody.
* `Arranged.lookups_respond`, `Arranged.accounted_respond`: what one request does to the counts.
* `Store.stats_conserve`: the counts after any calls to an empty store.
* `Inquiry`, `Store.readAll`: reads through a store, one after the other.
* `ReadTurn.hits_after`: what one read does to the number of hits.
* `Store.hits_eq_served_iff`: the hits of a store are the reads that were served from it, if and only if
  no read refuses a value; `Store.hits_ne_served` is a read that does.
-/

namespace FormulaOutline.Cache

variable {α : Type}

/-! ## Stores at work -/

/-- What is done with a store: it is asked, its counts are read, or time passes. -/
inductive Call (α : Type)
  | request (r : Request α)
  | stats
  | pass (ms : Nat)

/-- A request, with the store and the time that it has met. -/
structure Turn (α : Type) where
  before : Store α
  now : Nat
  request : Request α

namespace Turn

def answer (t : Turn α) : Answer α := (t.before.respond t.now t.request).1

def after (t : Turn α) : Store α := (t.before.respond t.now t.request).2

def isGet (t : Turn α) : Bool :=
  match t.request with
  | .get _ => true
  | _ => false

/-- Whether a value is put under a key that was not there, and is stored. -/
def adds (t : Turn α) : Bool :=
  match t.request with
  | .put key _ _ => (t.before.find? key).isNone && (t.after.find? key).isSome
  | _ => false

/-- Whether an entry is deleted. -/
def deletes (t : Turn α) : Bool :=
  match t.answer with
  | .deleted there => there
  | _ => false

/-- The number of entries that are said to be cleared. -/
def cleared (t : Turn α) : Nat :=
  match t.request, t.answer with
  | .clear, .removed count => count
  | _, _ => 0

end Turn

/-- The turns of the requests among some calls from a time on, and the store after all calls. -/
def Store.turns (s : Store α) (now : Nat) : List (Call α) → List (Turn α) × Store α
  | [] => ([], s)
  | .request r :: rest =>
      let (turns, final) := (s.respond now r).2.turns now rest
      (⟨s, now, r⟩ :: turns, final)
  | .stats :: rest => s.turns now rest
  | .pass ms :: rest => s.turns (now + ms) rest

/-! ## Counts -/

namespace Store

/-- How often the store has been looked up. -/
def lookups (s : Store α) : Nat := s.hits + s.misses

/-- The entries that are there, have given way or were too old. -/
def accounted (s : Store α) : Nat := s.size + s.evictions + s.expirations

/-- What only lookups and purges count. -/
def tallies (s : Store α) : Nat × Nat × Nat := (s.hits, s.misses, s.expirations)

variable (s : Store α) (now : Nat) (key : CacheKey)

theorem tallies_makeRoom (marks : List (Nat × CacheKey)) :
    (s.makeRoom marks).tallies = s.tallies := by
  induction marks generalizing s with
  | nil => rfl
  | cons m rest ih =>
    rw [makeRoom]
    split
    · exact ih _
    · rfl

theorem tallies_put (value : α) (cachedAt : Int) :
    (s.put now key value cachedAt).tallies = s.tallies := by
  rw [put]
  split
  · rfl
  · dsimp only [insert]
    split
    · rfl
    · exact tallies_makeRoom _ _

theorem tallies_remove : (s.remove key).2.tallies = s.tallies := by
  rw [remove]
  split <;> rfl

theorem evictions_remove : (s.remove key).2.evictions = s.evictions := by
  rw [remove]
  split <;> rfl

theorem removeAll_counts (keys : List CacheKey) :
    (keys.foldl (fun s key => (s.remove key).2) s).tallies = s.tallies ∧
      (keys.foldl (fun s key => (s.remove key).2) s).evictions = s.evictions := by
  induction keys generalizing s with
  | nil => exact ⟨rfl, rfl⟩
  | cons key rest ih =>
    rw [← s.tallies_remove key, ← s.evictions_remove key]
    exact ih _

theorem tallies_touch : (s.touch key).tallies = s.tallies := by
  rw [touch]
  split <;> rfl

theorem accounted_touch : (s.touch key).accounted = s.accounted := by
  rw [touch]
  split
  · simp only [accounted, size, List.length_map]
  · rfl

theorem get_of_none (hFind : s.find? key = none) :
    s.get now key = (none, { s with misses := s.misses + 1 }) := by
  rw [get, hFind]

theorem get_of_expired {e : Entry α} (hFind : s.find? key = some e)
    (hAge : e.isExpired s.config.ttlMs now = true) : s.get now key = (none,
      { (s.remove key).2 with expirations := s.expirations + 1, misses := s.misses + 1 }) := by
  rw [get, hFind]
  exact if_pos hAge

theorem get_of_fresh {e : Entry α} (hFind : s.find? key = some e)
    (hAge : e.isExpired s.config.ttlMs now = false) : s.get now key =
      (some (e.value, e.cachedAt), { s with hits := s.hits + 1 }.touch key) := by
  rw [get, hFind]
  exact if_neg (Bool.eq_false_iff.mp hAge)

/-- A lookup counts a hit or a miss, by what it finds. -/
theorem lookups_get :
    (s.get now key).2.hits = s.hits + (s.get now key).1.isSome.toNat ∧
      (s.get now key).2.misses = s.misses + (s.get now key).1.isNone.toNat := by
  cases hFind : s.find? key with
  | none =>
    rw [get_of_none s now key hFind]
    exact ⟨rfl, rfl⟩
  | some e =>
    cases hAge : e.isExpired s.config.ttlMs now with
    | true =>
      have hTallies := s.tallies_remove key
      rw [get_of_expired s now key hFind hAge]
      exact ⟨congrArg Prod.fst hTallies, rfl⟩
    | false =>
      have hTallies := tallies_touch { s with hits := s.hits + 1 } key
      rw [get_of_fresh s now key hFind hAge]
      exact ⟨congrArg Prod.fst hTallies, congrArg (fun t => t.2.1) hTallies⟩

/-- Only a lookup counts as one. -/
theorem lookups_respond (r : Request α) :
    (s.respond now r).2.lookups = s.lookups + (Turn.mk s now r).isGet.toNat := by
  have hLookups : ∀ {s' : Store α}, s'.tallies = s.tallies → s'.lookups = s.lookups := by
    intro s' hTallies
    obtain ⟨hHits, hMisses, -⟩ : s'.hits = s.hits ∧ s'.misses = s.misses ∧ _ := by
      simpa [tallies] using hTallies
    rw [lookups, lookups, hHits, hMisses]
  cases r with
  | put key value cachedAt => exact hLookups (s.tallies_put now key value cachedAt)
  | get key =>
    obtain ⟨hHits, hMisses⟩ := s.lookups_get now key
    have hOne : (s.get now key).1.isSome.toNat + (s.get now key).1.isNone.toNat = 1 := by
      cases (s.get now key).1 <;> rfl
    change (s.get now key).2.hits + (s.get now key).2.misses = s.hits + s.misses + 1
    omega
  | delete key => exact hLookups (s.tallies_remove key)
  | clear => rfl
  | purge =>
    obtain ⟨hTallies, -⟩ :=
      s.removeAll_counts ((s.entries.filter (·.isExpired s.config.ttlMs now)).map Entry.key)
    have hRemoved := hLookups hTallies
    exact hRemoved

end Store

namespace Arranged

variable {config : CacheConfig} {s : Store α} {l : List (Entry α)} {e : Entry α} {key : CacheKey}
  {now : Nat}

theorem length_filter (hs : Arranged config s l) (hFind : s.find? key = some e) :
    (l.filter (·.key ≠ key)).length + 1 = l.length := by
  obtain ⟨hMem, rfl⟩ := hs.find?_eq_some_iff.mp hFind
  simpa using (hs.order.perm_change hMem id).length_eq

theorem accounted_remove (hs : Arranged config s l) (hFind : s.find? key = some e) :
    (s.remove key).2.accounted + 1 = s.accounted := by
  have hSize := hs.length_filter hFind
  rw [← (hs.remove key).size_eq, ← hs.size_eq] at hSize
  have hExpirations : (s.remove key).2.expirations = s.expirations :=
    congrArg (fun t => t.2.2) (s.tallies_remove key)
  have hEvictions := s.evictions_remove key
  rw [Store.accounted, Store.accounted]
  omega

/-- As many entries give way as are in the way of one more. -/
theorem evictions_makeRoom (hs : Arranged config s l) (hSome : config.maxEntries ≠ 0) :
    (s.makeRoom s.recency).evictions = s.evictions + (l.length + 1 - config.maxEntries) := by
  rw [hs.recency]
  induction l generalizing s with
  | nil =>
    have hNone : [].length (α := Entry α) + 1 - config.maxEntries = 0 := by
      rw [List.length_nil]
      omega
    rw [hNone]
    rfl
  | cons e rest ih =>
    rw [List.map_cons, Entry.mark, Store.makeRoom]
    split
    · rename_i hFull
      rw [hs.size_eq, hs.config_eq, List.length_cons] at hFull
      have hNext := ih hs.dropFront
      rw [List.length_cons]
      dsimp only at hNext
      omega
    · rename_i hFree
      rw [hs.size_eq, hs.config_eq] at hFree
      omega

/-- A value that is put under a new key comes in, and what gives way for it is counted. -/
theorem accounted_put (hs : Arranged config s l) (now : Nat) (key : CacheKey) (value : α)
    (cachedAt : Int) : (s.put now key value cachedAt).accounted =
      s.accounted + (Turn.mk s now (.put key value cachedAt)).adds.toNat := by
  have hExpirations : (s.put now key value cachedAt).expirations = s.expirations :=
    congrArg (fun t => t.2.2) (s.tallies_put now key value cachedAt)
  have hAdds : (Turn.mk s now (.put key value cachedAt)).adds =
      ((s.find? key).isNone && ((s.put now key value cachedAt).find? key).isSome) := rfl
  rw [hAdds, Store.accounted, Store.accounted, hExpirations]
  by_cases hSome : config.maxEntries = 0
  · have hSame : s.put now key value cachedAt = s := if_pos (hs.config_eq ▸ hSome)
    rw [hSame]
    cases s.find? key <;> rfl
  · cases hFind : s.find? key with
    | some old =>
      have hAgain : Arranged config (s.put now key value cachedAt) _ :=
        hs.put_again hSome hFind value cachedAt
      have hEvictions : (s.put now key value cachedAt).evictions = s.evictions := by
        have hFound : ({ s with uses := s.uses + 1 } : Store α).find? key = some old := hFind
        rw [Store.put, if_neg (hs.config_eq ▸ hSome)]
        simp only [hFound, Option.isSome_some, if_true]
        rfl
      rw [hEvictions, hAgain.size_eq, hs.size_eq, List.length_append, List.length_singleton,
        hs.length_filter hFind]
      rfl
    | none =>
      have hNew : Arranged config (s.put now key value cachedAt) _ :=
        hs.put_new hSome hFind value cachedAt
      have hEvictions : (s.put now key value cachedAt).evictions =
          s.evictions + (l.length + 1 - config.maxEntries) := by
        have hTicked : Arranged config { s with uses := s.uses + 1 } l :=
          { hs with used := fun e hMem => Nat.le_succ_of_le (hs.used e hMem) }
        have hFound : ({ s with uses := s.uses + 1 } : Store α).find? key = none := hFind
        rw [Store.put, if_neg (hs.config_eq ▸ hSome)]
        simp only [hFound, Option.isSome_none, Bool.false_eq_true, if_false]
        exact hTicked.evictions_makeRoom hSome
      have hThere : ((s.put now key value cachedAt).find? key).isSome = true := by
        rw [hNew.find?_eq_some_iff.mpr ⟨List.mem_append_right _ (List.mem_singleton_self _), rfl⟩]
        rfl
      have hRoom := hs.room
      rw [hThere, hEvictions, hNew.size_eq, hs.size_eq, List.length_append, List.length_singleton,
        List.length_drop]
      change _ = _ + 1
      omega

/-- A lookup loses an entry only if it counts it. -/
theorem accounted_get (hs : Arranged config s l) (now : Nat) (key : CacheKey) :
    (s.get now key).2.accounted = s.accounted := by
  cases hFind : s.find? key with
  | none =>
    rw [s.get_of_none now key hFind]
    rfl
  | some e =>
    cases hAge : e.isExpired s.config.ttlMs now with
    | true =>
      have hOne := hs.accounted_remove hFind
      have hExpirations : (s.remove key).2.expirations = s.expirations :=
        congrArg (fun t => t.2.2) (s.tallies_remove key)
      rw [s.get_of_expired now key hFind hAge]
      simp only [Store.accounted, Store.size] at hOne ⊢
      omega
    | false =>
      rw [s.get_of_fresh now key hFind hAge]
      exact Store.accounted_touch { s with hits := s.hits + 1 } key

theorem accounted_purge (hs : Arranged config s l) (now : Nat) :
    (s.purge now).2.accounted = s.accounted := by
  obtain ⟨l', hPurged, hQueue⟩ := hs.respond_purge now
  obtain ⟨hCount, hLeft⟩ := Prod.mk.inj hQueue
  have hHeld : ∀ l : List (Entry α), (l.map Entry.held).length = l.length := fun _ =>
    List.length_map _
  have hSize : l'.length + (s.purge now).1 = l.length := by
    rw [← Answer.removed.inj hCount, ← hHeld l', ← hLeft, ← List.countP_eq_length_filter,
      Nat.add_comm, ← hHeld l, List.length_eq_countP_add_countP (·.isExpired config.ttlMs now)]
    simp only [Bool.not_eq_true, Bool.decide_eq_false]
  obtain ⟨hTallies, hEvictions⟩ :=
    s.removeAll_counts ((s.entries.filter (·.isExpired s.config.ttlMs now)).map Entry.key)
  have hExpirations : (s.purge now).2.expirations = s.expirations + (s.purge now).1 :=
    congrArg (fun t : Nat × Nat × Nat => t.2.2 + (s.purge now).1) hTallies
  have hEvictions : (s.purge now).2.evictions = s.evictions := hEvictions
  rw [Store.accounted, Store.accounted, hPurged.size_eq, hs.size_eq, hEvictions, hExpirations]
  omega

/-- An entry that comes in is accounted for, until somebody is told that it goes. -/
theorem accounted_respond (hs : Arranged config s l) (now : Nat) (r : Request α) :
    let turn : Turn α := ⟨s, now, r⟩
    turn.after.accounted + turn.deletes.toNat + turn.cleared = s.accounted + turn.adds.toNat := by
  cases r with
  | put key value cachedAt => exact hs.accounted_put now key value cachedAt
  | get key => exact hs.accounted_get now key
  | delete key =>
    change (s.remove key).2.accounted + (s.remove key).1.isSome.toNat + 0 = s.accounted + 0
    cases hFind : s.find? key with
    | none => 
      rw [Store.remove, hFind]
      rfl
    | some e =>
      have hOne := hs.accounted_remove hFind
      have hThere : (s.remove key).1.isSome = true := by
        rw [Store.remove, hFind]
        rfl
      rw [hThere]
      exact hOne
  | clear =>
    change 0 + s.evictions + s.expirations + 0 + s.size = s.accounted + 0
    rw [Store.accounted]
    omega
  | purge => exact hs.accounted_purge now

end Arranged

/-! ## Any calls -/

/-- What calls add to the counts of a store. -/
structure Conserved (s : Store α) (turns : List (Turn α)) (final : Store α) : Prop where
  lookups : final.lookups = s.lookups + turns.countP Turn.isGet
  accounted : final.accounted + turns.countP Turn.deletes + (turns.map Turn.cleared).sum =
    s.accounted + turns.countP Turn.adds

theorem Arranged.conserved {config : CacheConfig} {s : Store α} {l : List (Entry α)}
    (hs : Arranged config s l) (now : Nat) (calls : List (Call α)) :
    Conserved s (s.turns now calls).1 (s.turns now calls).2 := by
  induction calls generalizing s l now with
  | nil => exact ⟨rfl, rfl⟩
  | cons call rest ih =>
    cases call with
    | request r =>
      obtain ⟨l', hNext, -⟩ := hs.respond now r
      obtain ⟨hLookups, hAccounted⟩ := ih hNext now
      have hFirst := s.lookups_respond now r
      have hTurn := hs.accounted_respond now r
      have hCount : ∀ p : Turn α → Bool, (s.turns now (.request r :: rest)).1.countP p =
          ((s.respond now r).2.turns now rest).1.countP p + (p ⟨s, now, r⟩).toNat := fun p => by
        rw [Store.turns, List.countP_cons]
        cases p ⟨s, now, r⟩ <;> rfl
      constructor
      · rw [hCount]
        change ((s.respond now r).2.turns now rest).2.lookups = _
        omega
      · rw [hCount, hCount]
        change ((s.respond now r).2.turns now rest).2.accounted + _ + (Turn.cleared ⟨s, now, r⟩ +
          (((s.respond now r).2.turns now rest).1.map Turn.cleared).sum) = _
        change (s.respond now r).2.accounted + _ + _ = _ at hTurn
        omega
    | stats => exact ih hs now
    | pass ms => exact ih hs (now + ms)

/-- Whatever is done with an empty store, its hits and misses are the lookups, and of the entries that
came in each one is there, has given way, was too old, was deleted or was cleared. -/
theorem Store.stats_conserve (config : CacheConfig) (calls : List (Call α)) :
    let run := (Store.empty config : Store α).turns 0 calls
    let stats := run.2.stats
    stats.hits + stats.misses = run.1.countP Turn.isGet ∧
      run.1.countP Turn.adds = stats.entries + stats.evictions + stats.expirations +
        run.1.countP Turn.deletes + (run.1.map Turn.cleared).sum := by
  intro run stats
  obtain ⟨hLookups, hAccounted⟩ := (Arranged.empty config).conserved (α := α) 0 calls
  have hNever : (Store.empty config : Store α).lookups = 0 := rfl
  have hNone : (Store.empty config : Store α).accounted = 0 := rfl
  rw [hNever, Nat.zero_add] at hLookups
  rw [hNone, Nat.zero_add] at hAccounted
  exact ⟨hLookups, hAccounted.symm⟩

/-! ## Reads through a store -/

variable {ε : Type}

/-- What is read, when, and what comes of fetching it. -/
structure Inquiry (ε α : Type) where
  moment : Moment
  key : CacheKey
  freshness : Freshness
  fetched : Except ε α

/-- A read, with the store that it has met. -/
structure ReadTurn (ε α : Type) extends Inquiry ε α where
  before : Store α

namespace ReadTurn

/-- The result of the read and the store after it. -/
def outcome (t : ReadTurn ε α) : Except ε (Read α) × Store α × Unit :=
  t.before.readThrough t.moment t.key t.freshness (fun u => (t.fetched, u)) ()

def result (t : ReadTurn ε α) : Except ε (Read α) := t.outcome.1

def after (t : ReadTurn ε α) : Store α := t.outcome.2.1

/-- Whether the read gives a value that was in the store. -/
def isServed (t : ReadTurn ε α) : Bool := t.result.toOption.any Read.wasHit

/-- Whether the store finds a value that is too old for the read. -/
def isRefused (t : ReadTurn ε α) : Bool :=
  match t.freshness, (t.before.get t.moment.elapsed t.key).1 with
  | .maxAge seconds, some (_, cachedAt) => seconds * 1000 < t.moment.ageSince cachedAt
  | _, _ => false

end ReadTurn

/-- The turns of reads, and the store after them. -/
def Store.readAll (s : Store α) : List (Inquiry ε α) → List (ReadTurn ε α) × Store α
  | [] => ([], s)
  | i :: rest =>
      let turn : ReadTurn ε α := ⟨i, s⟩
      let (turns, final) := turn.after.readAll rest
      (turn :: turns, final)

/-! ## Hits -/

theorem Store.hits_keep (s : Store α) (m : Moment) (key : CacheKey) (value : α) :
    (s.keep m key value).2.hits = s.hits :=
  congrArg Prod.fst (s.tallies_put m.elapsed key value m.wall)

namespace ReadTurn

/-- A read that does not take its value from the store fetches it, which is no hit. -/
theorem of_fetched {t : ReadTurn ε α} {s : Store α}
    (h : t.before.readStored t.moment t.key t.freshness = (none, s)) :
    t.isServed = false ∧ t.after.hits = s.hits := by
  have hOutcome : t.outcome = match t.fetched with
      | .error e => (.error e, s, ())
      | .ok value => (.ok (s.keep t.moment t.key value).1, (s.keep t.moment t.key value).2, ()) := by
    rw [outcome, Store.readThrough, h]
    cases t.fetched <;> rfl
  rw [isServed, result, after, hOutcome]
  cases t.fetched with
  | error e => exact ⟨rfl, rfl⟩
  | ok value => exact ⟨rfl, s.hits_keep t.moment t.key value⟩

theorem of_stored {t : ReadTurn ε α} {s : Store α} {read : Read α}
    (h : t.before.readStored t.moment t.key t.freshness = (some read, s)) :
    t.isServed = read.wasHit ∧ t.after.hits = s.hits := by
  rw [isServed, result, after, outcome, Store.readThrough, h]
  exact ⟨rfl, rfl⟩

theorem isRefused_of_none {t : ReadTurn ε α}
    (h : (t.before.get t.moment.elapsed t.key).1 = none) : t.isRefused = false := by
  rw [isRefused, h]
  cases t.freshness <;> rfl

theorem isRefused_of_some {t : ReadTurn ε α} {value : α} {cachedAt : Int}
    (hLooks : t.freshness ≠ .bypass)
    (h : (t.before.get t.moment.elapsed t.key).1 = some (value, cachedAt)) :
    t.isRefused = !t.freshness.accepts t.moment cachedAt := by
  rw [isRefused, h]
  cases hFresh : t.freshness with
  | withinTtl => rfl
  | maxAge seconds =>
    dsimp only [Freshness.accepts]
    rw [← decide_not]
    exact decide_eq_decide.mpr Nat.not_le.symm
  | bypass => exact (hLooks hFresh).elim

/-- A value that is found is a hit, whether it is served or refused. -/
theorem hits_after (t : ReadTurn ε α) :
    t.after.hits = t.before.hits + t.isServed.toNat + t.isRefused.toNat := by
  by_cases hLooks : t.freshness = .bypass
  · have hStored : t.before.readStored t.moment t.key t.freshness = (none, t.before) := if_pos hLooks
    have hRefused : t.isRefused = false := by rw [isRefused, hLooks]
    obtain ⟨hServed, hHits⟩ := of_fetched hStored
    rw [hHits, hServed, hRefused]
    rfl
  · have hFound := (t.before.lookups_get t.moment.elapsed t.key).1
    have hStored : t.before.readStored t.moment t.key t.freshness = _ := if_neg hLooks
    generalize hGet : t.before.get t.moment.elapsed t.key = looked at hFound hStored
    obtain ⟨found, s⟩ := looked
    have hGet := congrArg Prod.fst hGet
    cases found with
    | none =>
      obtain ⟨hServed, hHits⟩ := of_fetched hStored
      rw [hHits, hServed, isRefused_of_none hGet]
      exact hFound
    | some entry =>
      obtain ⟨value, cachedAt⟩ := entry
      rw [isRefused_of_some hLooks hGet]
      dsimp only at hStored hFound
      cases hAccepts : t.freshness.accepts t.moment cachedAt with
      | true =>
        rw [hAccepts, if_pos rfl] at hStored
        obtain ⟨hServed, hHits⟩ := of_stored hStored
        rw [hHits, hServed]
        exact hFound
      | false =>
        rw [hAccepts, if_neg Bool.false_ne_true] at hStored
        obtain ⟨hServed, hHits⟩ := of_fetched hStored
        rw [hHits, hServed]
        exact hFound

end ReadTurn

/-! ## Any reads -/

theorem Store.hits_readAll (s : Store α) (reads : List (Inquiry ε α)) :
    (s.readAll reads).2.hits = s.hits + (s.readAll reads).1.countP ReadTurn.isServed +
      (s.readAll reads).1.countP ReadTurn.isRefused := by
  induction reads generalizing s with
  | nil => rfl
  | cons i rest ih =>
    have hFirst := ReadTurn.hits_after ⟨i, s⟩
    have hRest := ih (ReadTurn.after ⟨i, s⟩)
    have hCount : ∀ p : ReadTurn ε α → Bool, (s.readAll (i :: rest)).1.countP p =
        ((ReadTurn.after ⟨i, s⟩).readAll rest).1.countP p + (p ⟨i, s⟩).toNat := fun p => by
      rw [Store.readAll, List.countP_cons]
      cases p ⟨i, s⟩ <;> rfl
    rw [hCount, hCount]
    change ((ReadTurn.after ⟨i, s⟩).readAll rest).2.hits = _
    dsimp only at hFirst
    omega

/-- After any reads through an empty store its hits are the reads that were served from it and those
that refused what it had found; so they are the served ones if and only if none has refused a value. -/
theorem Store.hits_eq_served_iff (config : CacheConfig) (reads : List (Inquiry ε α)) :
    let run := (Store.empty config : Store α).readAll reads
    run.2.stats.hits = run.1.countP ReadTurn.isServed + run.1.countP ReadTurn.isRefused ∧
      (run.2.stats.hits = run.1.countP ReadTurn.isServed ↔
        ∀ turn ∈ run.1, turn.isRefused = false) := by
  intro run
  have hHits : run.2.stats.hits =
      run.1.countP ReadTurn.isServed + run.1.countP ReadTurn.isRefused := by
    have hAll := (Store.empty config : Store α).hits_readAll reads
    have hNone : (Store.empty config : Store α).hits = 0 := rfl
    rw [hNone, Nat.zero_add] at hAll
    exact hAll
  have hNever : (∀ turn ∈ run.1, turn.isRefused = false) ↔
      run.1.countP ReadTurn.isRefused = 0 := by
    simp only [List.countP_eq_zero, Bool.not_eq_true]
  refine ⟨hHits, ?_⟩
  rw [hHits, hNever]
  omega

/-- A value is fetched, and a second later the same key is read with no patience for older values. -/
def twoReads : List (Inquiry Unit Nat) :=
  [⟨⟨0, 0⟩, ⟨"t", "a"⟩, .withinTtl, .ok 1⟩, ⟨⟨1000, 1000⟩, ⟨"t", "a"⟩, .maxAge 0, .ok 2⟩]

/-- Both values are fetched, and the store counts a hit. -/
theorem Store.hits_ne_served :
    let run := (Store.empty .default : Store Nat).readAll twoReads
    run.1.countP ReadTurn.isServed = 0 ∧ run.2.stats.hits = 1 ∧
      run.2.stats.hits ≠ run.1.countP ReadTurn.isServed := by
  decide

end FormulaOutline.Cache
