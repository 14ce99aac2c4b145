import FormulaOutline.Scope.Id

/-!
# Arenas

An arena stores values under ids. A slot that has been freed is used again under a new generation,
so that an id of a freed value never names another one.

* `Arena.alloc` and `Arena.free` store and drop a value, `Arena.get?` reads one.
-/

namespace FormulaOutline

/-- A slot with the generation of the value that it holds or will hold next. -/
structure Slot (α : Type) where
  generation : UInt32
  value : Option α
deriving DecidableEq, Repr

structure Arena (α : Type) where
  slots : Array (Slot α)
  /-- The slots without a value, the one freed last first. -/
  vacant : List Nat
deriving DecidableEq, Repr

namespace Arena

variable {α : Type}

def empty : Arena α := ⟨#[], []⟩

/-! ## Reading -/

/-- The slot that an id names, if it still has the id's generation. -/
def slot? (a : Arena α) (id : ScopeId) : Option (Slot α) :=
  a.slots[id.index]?.filter (·.generation == id.generation)

def get? (a : Arena α) (id : ScopeId) : Option α := (a.slot? id).bind Slot.value

/-- Whether a value is stored under an id. -/
def isLive (a : Arena α) (id : ScopeId) : Bool := (a.get? id).isSome

/-- The stored values with their ids, in the order of the slots. -/
def entries (a : Arena α) : List (ScopeId × α) :=
  a.slots.toList.zipIdx.filterMap fun (s, i) => s.value.map fun v => (⟨i, s.generation⟩, v)

/-- The number of stored values. -/
def size (a : Arena α) : Nat := a.slots.toList.countP (·.value.isSome)

/-! ## Changing -/

/-- Stores a value in the slot freed last, or in a new one. -/
def alloc (a : Arena α) (v : α) : ScopeId × Arena α :=
  match a.vacant with
  | [] => (⟨a.slots.size, 0⟩, { a with slots := a.slots.push ⟨0, some v⟩ })
  | i :: rest =>
      let generation := (a.slots[i]?.map Slot.generation).getD 0
      (⟨i, generation⟩, ⟨a.slots.setIfInBounds i ⟨generation, some v⟩, rest⟩)

/-- Drops a value and raises the generation of its slot. -/
def free (a : Arena α) (id : ScopeId) : Option α × Arena α :=
  match a.get? id with
  | none => (none, a)
  | some v =>
      (some v, ⟨a.slots.setIfInBounds id.index ⟨id.generation + 1, none⟩, id.index :: a.vacant⟩)

/-- Changes the value stored under an id. -/
def modify (a : Arena α) (id : ScopeId) (f : α → α) : Arena α :=
  match a.get? id with
  | none => a
  | some v => { a with slots := a.slots.setIfInBounds id.index ⟨id.generation, some (f v)⟩ }

end Arena

end FormulaOutline
