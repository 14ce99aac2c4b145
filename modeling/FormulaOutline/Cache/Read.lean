import FormulaOutline.Cache.Store

/-!
# Reading through a cache

A value is taken from the store if it is there and fresh enough; otherwise it is fetched and stored.

* `Store.readThrough` reads a value in this way.
-/

namespace FormulaOutline.Cache

/-- How old a stored value may be. -/
inductive Freshness
  /-- As old as the store keeps it. -/
  | withinTtl
  /-- At most this many seconds. -/
  | maxAge (seconds : Nat)
  /-- Stored values are not used. -/
  | bypass
deriving DecidableEq, Repr

/-- The time in milliseconds: how much has passed, and what the wall clock shows. -/
structure Moment where
  elapsed : Nat
  wall : Int
deriving DecidableEq, Repr

/-- Milliseconds since a time of the wall clock; a time to come is no time ago. -/
def Moment.ageSince (m : Moment) (cachedAt : Int) : Nat := (m.wall - cachedAt).toNat

/-- Whether a value obtained at a time may be used. -/
def Freshness.accepts (f : Freshness) (m : Moment) (cachedAt : Int) : Bool :=
  match f with
  | .withinTtl => true
  | .maxAge seconds => m.ageSince cachedAt ≤ seconds * 1000
  | .bypass => false

/-- A value with where it comes from. -/
structure Read (α : Type) where
  value : α
  cachedAt : Int
  wasHit : Bool

namespace Store

variable {α : Type}

/-- Takes a value from the store if it may be used. -/
def readStored (s : Store α) (m : Moment) (key : CacheKey) (f : Freshness) :
    Option (Read α) × Store α :=
  if f = .bypass then (none, s)
  else
    match s.get m.elapsed key with
    | (some (value, cachedAt), s) =>
        (if f.accepts m cachedAt then some ⟨value, cachedAt, true⟩ else none, s)
    | (none, s) => (none, s)

/-- Stores a value that was fetched. -/
def keep (s : Store α) (m : Moment) (key : CacheKey) (value : α) : Read α × Store α :=
  (⟨value, m.wall, false⟩, s.put m.elapsed key value m.wall)

/-- Takes a value from the store or fetches and stores it. Fetching may change a state; a failure
is not stored. -/
def readThrough {ε σ : Type} (s : Store α) (m : Moment) (key : CacheKey) (f : Freshness)
    (fetch : σ → Except ε α × σ) (state : σ) : Except ε (Read α) × Store α × σ :=
  match s.readStored m key f with
  | (some read, s) => (.ok read, s, state)
  | (none, s) =>
      match fetch state with
      | (.error e, state) => (.error e, s, state)
      | (.ok value, state) =>
          let (read, s) := s.keep m key value
          (.ok read, s, state)

end Store

/-- A short description of a cache. -/
def describeCache : String := "ReadThroughCache \x7b .. \x7d"

end FormulaOutline.Cache
