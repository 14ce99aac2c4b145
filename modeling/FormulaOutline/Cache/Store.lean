import FormulaOutline.Cache.Key

/-!
# Cache stores

A store holds a bounded number of values for a bounded time. When it is full, the value that was
used least recently gives way.

* Every use gives a value a new stamp. `Store.recency` holds the keys in the order of their stamps, so
  that the key to drop is the first one.
* `Store.get`, `put`, `delete`, `clear` and `purge` are the operations; those that depend on time
  take the current time in milliseconds.
* `Store.stats` counts what has happened.
-/

namespace FormulaOutline.Cache

structure CacheConfig where
  maxEntries : Nat
  /-- Values are not used once they are this old. -/
  ttlMs : Nat
deriving DecidableEq, Repr

def CacheConfig.default : CacheConfig := ⟨1024, 3600 * 1000⟩

/-- A stored value. The stamp `lastUsed` is greater for values used later. -/
structure Entry (α : Type) where
  key : CacheKey
  value : α
  /-- When the value was obtained, by the wall clock. -/
  cachedAt : Int
  /-- When the value was stored. -/
  inserted : Nat
  lastUsed : Nat

/-- Whether an entry is too old at a time. -/
def Entry.isExpired {α : Type} (ttlMs now : Nat) (e : Entry α) : Bool := ttlMs ≤ now - e.inserted

structure CacheStats where
  hits : Nat
  misses : Nat
  entries : Nat
  evictions : Nat
  expirations : Nat
deriving DecidableEq, Repr

/-- The share of hits, zero if there was nothing to hit. -/
def CacheStats.hitRate (s : CacheStats) : Float :=
  if s.hits + s.misses = 0 then 0
  else Number.ofNat s.hits / Number.ofNat (s.hits + s.misses)

/-! ## Stamps -/

/-- Puts a key at a stamp, in the place of one that is there already. The stamps are in order. -/
def mark (stamp : Nat) (key : CacheKey) : List (Nat × CacheKey) → List (Nat × CacheKey)
  | [] => [(stamp, key)]
  | (t, k) :: rest =>
      if stamp < t then (stamp, key) :: (t, k) :: rest
      else if stamp = t then (stamp, key) :: rest
      else (t, k) :: mark stamp key rest

def unmark (stamp : Nat) (marks : List (Nat × CacheKey)) : List (Nat × CacheKey) :=
  marks.filter (·.1 ≠ stamp)

structure Store (α : Type) where
  config : CacheConfig
  entries : List (Entry α)
  /-- The stamp of every entry with its key, least stamp first. -/
  recency : List (Nat × CacheKey)
  /-- The last stamp that was given. -/
  uses : Nat
  hits : Nat
  misses : Nat
  evictions : Nat
  expirations : Nat

namespace Store

variable {α : Type}

def empty (config : CacheConfig) : Store α := ⟨config, [], [], 0, 0, 0, 0, 0⟩

def size (s : Store α) : Nat := s.entries.length

def stats (s : Store α) : CacheStats :=
  ⟨s.hits, s.misses, s.size, s.evictions, s.expirations⟩

/-! ## Entries -/

def find? (s : Store α) (key : CacheKey) : Option (Entry α) := s.entries.find? (·.key = key)

/-- Stores an entry in the place of the one of its key. -/
def insert (s : Store α) (e : Entry α) : Store α :=
  let marks := mark e.lastUsed e.key s.recency
  { s with
    entries := s.entries.filter (·.key ≠ e.key) ++ [e]
    recency :=
      match s.find? e.key with
      | some old => unmark old.lastUsed marks
      | none => marks }

/-- The entry of a key and the store without it. -/
def remove (s : Store α) (key : CacheKey) : Option (Entry α) × Store α :=
  match s.find? key with
  | some e =>
      (some e,
        { s with
          entries := s.entries.filter (·.key ≠ key)
          recency := unmark e.lastUsed s.recency })
  | none => (none, s)

/-- Gives the entry of a key a new stamp. -/
def touch (s : Store α) (key : CacheKey) : Store α :=
  let now := s.uses + 1
  match s.find? key with
  | some e =>
      { s with
        entries := s.entries.map fun e => if e.key = key then { e with lastUsed := now } else e
        recency := mark now key (unmark e.lastUsed s.recency)
        uses := now }
  | none => { s with uses := now }

/-- Drops entries until there is room for one more, the one that was used least recently first. -/
def makeRoom (s : Store α) : List (Nat × CacheKey) → Store α
  | [] => s
  | (_, key) :: rest =>
      if s.config.maxEntries ≤ s.size then
        makeRoom
          { s with
            entries := s.entries.filter (·.key ≠ key)
            recency := rest
            evictions := s.evictions + 1 } rest
      else s

/-! ## Operations -/

/-- The value of a key and when it was obtained. An entry that is too old is dropped. -/
def get (s : Store α) (now : Nat) (key : CacheKey) : Option (α × Int) × Store α :=
  match s.find? key with
  | none => (none, { s with misses := s.misses + 1 })
  | some e =>
      if e.isExpired s.config.ttlMs now then
        (none,
          { (s.remove key).2 with expirations := s.expirations + 1, misses := s.misses + 1 })
      else (some (e.value, e.cachedAt), { s with hits := s.hits + 1 }.touch key)

/-- Stores a value. A full store first drops the entry used least recently, unless the key has an
entry already. -/
def put (s : Store α) (now : Nat) (key : CacheKey) (value : α) (cachedAt : Int) : Store α :=
  if s.config.maxEntries = 0 then s
  else
    let s := { s with uses := s.uses + 1 }
    let s := if (s.find? key).isSome then s else s.makeRoom s.recency
    s.insert ⟨key, value, cachedAt, now, s.uses⟩

/-- Drops the entry of a key; the flag says whether there was one. -/
def delete (s : Store α) (key : CacheKey) : Bool × Store α :=
  let (old, s) := s.remove key
  (old.isSome, s)

/-- Drops all entries and gives their number. -/
def clear (s : Store α) : Nat × Store α := (s.size, { s with entries := [], recency := [] })

/-- Drops all entries that are too old and gives their number. -/
def purge (s : Store α) (now : Nat) : Nat × Store α :=
  let expired := (s.entries.filter (·.isExpired s.config.ttlMs now)).map Entry.key
  let s := expired.foldl (fun s key => (s.remove key).2) s
  (expired.length, { s with expirations := s.expirations + expired.length })

/-! ## Descriptions -/

/-- A time with the largest unit of seconds, milliseconds and nanoseconds that it fills. -/
def durationText (ms : Nat) : String :=
  if 1000 ≤ ms then
    let fraction := (Nat.toDigits 10 (1000 + ms % 1000)).tail.reverse.dropWhile (· == '0')
    let point : List Char := if fraction.isEmpty then [] else '.' :: fraction.reverse
    toString (ms / 1000) ++ String.ofList point ++ "s"
  else if ms = 0 then "0ns"
  else toString ms ++ "ms"

/-- A short description of a store. -/
def describe (s : Store α) : String :=
  "MemoryCacheBackend \x7b config: CacheConfig \x7b max_entries: " ++
    toString s.config.maxEntries ++ ", ttl: " ++ durationText s.config.ttlMs ++ " \x7d, len: " ++
    toString s.size ++ " \x7d"

end Store

end FormulaOutline.Cache
