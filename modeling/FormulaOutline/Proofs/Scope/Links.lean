import FormulaOutline.Proofs.Scope.Arena
import FormulaOutline.Scope.Build
import Mathlib.Data.List.Perm.Subperm
import Mathlib.Logic.Relation

/-!
# Links between scopes

A scope points to the scopes that it owns, and each of these points back to it.

* `Owns`: one scope is a child or a reference of another.
* `Linked`: the links of a record agree with the records that they lead to.
* `shape`: what a record says about links; evaluation does not touch it.
* `firstByKey_lookup`: the index of keys finds the first scope with a key.
-/

namespace FormulaOutline

/-! ## Lists without repetitions -/

theorem nodup_eraseDups {α : Type} [DecidableEq α] : (l : List α) → l.eraseDups.Nodup
  | [] => List.nodup_nil
  | x :: rest => by
    rw [List.eraseDups_cons, List.nodup_cons]
    refine ⟨?_, nodup_eraseDups _⟩
    rw [List.mem_eraseDups, List.mem_filter]
    simp
termination_by l => l.length
decreasing_by exact Nat.lt_succ_of_le (List.length_filter_le _ _)

/-- Without repeated keys every entry is found by its key. -/
theorem lookup_of_mem {α : Type} {l : List (String × α)} (hl : (l.map Prod.fst).Nodup)
    {e : String × α} (he : e ∈ l) : l.lookup e.1 = some e.2 := by
  induction l with
  | nil => cases he
  | cons f rest ih =>
    rw [List.map_cons, List.nodup_cons] at hl
    rcases List.mem_cons.mp he with rfl | he
    · exact List.lookup_cons_self
    · have hne : (e.1 == f.1) = false := by
        rw [beq_eq_false_iff_ne]
        rintro heq
        exact hl.1 (heq ▸ List.mem_map_of_mem he)
      rw [List.lookup_cons, hne]
      exact ih hl.2 he

theorem length_le_one {α : Type} {l : List α} (hl : l.Nodup) (heq : ∀ x ∈ l, ∀ y ∈ l, x = y) :
    l.length ≤ 1 := by
  match l with
  | [] => exact Nat.zero_le _
  | [x] => exact Nat.le_refl _
  | x :: y :: rest =>
    have hxy := heq x List.mem_cons_self y (List.mem_cons_of_mem _ List.mem_cons_self)
    exact ((List.nodup_cons.mp hl).1 (hxy ▸ List.mem_cons_self)).elim

/-- What stands before an element of a list without repetitions is determined. -/
theorem eq_of_append_cons_eq {α : Type} {x : α} {left right left' right' : List α}
    (hl : (left ++ x :: right).Nodup) (h : left ++ x :: right = left' ++ x :: right') :
    left = left' := by
  induction left generalizing left' with
  | nil =>
    cases left' with
    | nil => rfl
    | cons y left' =>
      simp only [List.nil_append, List.cons_append, List.cons.injEq] at h
      obtain ⟨rfl, rfl⟩ := h
      simp at hl
  | cons y left ih =>
    cases left' with
    | nil =>
      simp only [List.nil_append, List.cons_append, List.cons.injEq] at h
      obtain ⟨rfl, -⟩ := h
      simp at hl
    | cons z left' =>
      simp only [List.cons_append, List.cons.injEq] at h
      obtain ⟨rfl, h⟩ := h
      rw [ih (List.nodup_cons.mp hl).2 h]

theorem nodup_referencedIds (b : Formula.Bullet) : b.referencedIds.Nodup := nodup_eraseDups _

/-! ## The index of keys -/

namespace Arena

variable {a a' : Arena ScopeRecord}

def key? (a : Arena ScopeRecord) (id : ScopeId) : Option String :=
  (a.get? id).bind ScopeRecord.key?

theorem firstByKey_cons (id : ScopeId) (rest : List ScopeId) (found : List (String × ScopeId)) :
    a.firstByKey (id :: rest) found =
      match a.key? id with
      | some key =>
          if found.any (·.1 == key) then a.firstByKey rest found
          else a.firstByKey rest (found ++ [(key, id)])
      | none => a.firstByKey rest found := rfl

theorem firstByKey_congr {ids : List ScopeId} (h : ∀ c ∈ ids, a.key? c = a'.key? c)
    (found : List (String × ScopeId)) : a.firstByKey ids found = a'.firstByKey ids found := by
  induction ids generalizing found with
  | nil => rfl
  | cons id rest ih =>
    rw [firstByKey_cons, firstByKey_cons, h id List.mem_cons_self]
    have hrest := fun f => ih (fun c hc => h c (List.mem_cons_of_mem _ hc)) f
    split <;> simp only [hrest]

/-- The index keeps what was found before and finds the first scope of each other key. -/
theorem firstByKey_lookup (ids : List ScopeId) (found : List (String × ScopeId)) (key : String) :
    (a.firstByKey ids found).lookup key =
      (found.lookup key).or (ids.find? fun c => a.key? c == some key) := by
  induction ids generalizing found with
  | nil => simp [firstByKey]
  | cons id rest ih =>
    rw [firstByKey_cons]
    cases hk : a.key? id with
    | none => simp [ih, hk]
    | some k =>
      simp only [List.find?_cons, hk]
      by_cases hany : found.any (·.1 == k)
      · rw [if_pos hany, ih]
        by_cases hkey : k = key
        · subst hkey
          have hsome : (found.lookup k).isSome := by
            obtain ⟨e, he, hek⟩ := List.any_eq_true.mp hany
            exact List.lookup_isSome_iff.mpr ⟨e, he, by rw [beq_iff_eq.mp hek, beq_self_eq_true]⟩
          obtain ⟨c, hc⟩ := Option.isSome_iff_exists.mp hsome
          rw [hc]
          rfl
        · have hne : (some k == some key) = false := by simpa using hkey
          rw [hne]
      · rw [if_neg hany, ih, List.lookup_append]
        by_cases hkey : k = key
        · subst hkey
          have hnone : found.lookup k = none := by
            rw [← Option.not_isSome_iff_eq_none, List.lookup_isSome_iff]
            rintro ⟨e, he, hek⟩
            exact hany (List.any_eq_true.mpr ⟨e, he, by rw [beq_iff_eq.mp hek, beq_self_eq_true]⟩)
          simp [hnone, List.lookup_cons_self]
        · have hne : (some k == some key) = false := by simpa using hkey
          have hne' : (key == k) = false := by simpa using Ne.symm hkey
          rw [hne, List.lookup_cons, hne']
          simp

theorem nodup_firstByKey (ids : List ScopeId) (found : List (String × ScopeId))
    (hf : (found.map Prod.fst).Nodup) : ((a.firstByKey ids found).map Prod.fst).Nodup := by
  induction ids generalizing found with
  | nil => exact hf
  | cons id rest ih =>
    rw [firstByKey_cons]
    split
    · rename_i k _
      split
      · exact ih _ hf
      · rename_i hany
        refine ih _ ?_
        rw [List.map_append, List.nodup_append]
        refine ⟨hf, by simp, ?_⟩
        intro x hx y hy
        simp only [List.map_cons, List.map_nil, List.mem_singleton] at hy
        rintro rfl
        subst hy
        simp only [List.any_eq_true, beq_iff_eq, not_exists, not_and] at hany
        obtain ⟨e, he, rfl⟩ := List.mem_map.mp hx
        exact hany e he rfl
    · exact ih _ hf

end Arena

/-! ## Shapes -/

namespace ScopeRecord

/-- A record without the traces of evaluation. -/
def shape (r : ScopeRecord) : ScopeRecord :=
  { r with state := .idle, results := [], disabled := false, epoch := 0 }

/-- A record without its links to the scopes that it owns. -/
def face (r : ScopeRecord) : ScopeRecord :=
  { r.shape with children := [], transcluded := [], named := [] }

theorem face_of_shape {r s : ScopeRecord} (h : r.shape = s.shape) : r.face = s.face := by
  simp only [face, h]

theorem parent_of_face {r s : ScopeRecord} (h : r.face = s.face) : r.parent = s.parent :=
  (congrArg parent h :)

theorem node_of_face {r s : ScopeRecord} (h : r.face = s.face) : r.node = s.node :=
  (congrArg node h :)

theorem bullet_of_face {r s : ScopeRecord} (h : r.face = s.face) : r.bullet = s.bullet :=
  (congrArg bullet h :)

theorem transclusion_of_face {r s : ScopeRecord} (h : r.face = s.face) :
    r.transclusion = s.transclusion :=
  (congrArg transclusion h :)

theorem children_of_shape {r s : ScopeRecord} (h : r.shape = s.shape) : r.children = s.children :=
  (congrArg children h :)

theorem transcluded_of_shape {r s : ScopeRecord} (h : r.shape = s.shape) :
    r.transcluded = s.transcluded :=
  (congrArg transcluded h :)

theorem named_of_shape {r s : ScopeRecord} (h : r.shape = s.shape) : r.named = s.named :=
  (congrArg named h :)

theorem owned_of_shape {r s : ScopeRecord} (h : r.shape = s.shape) : r.owned = s.owned := by
  rw [owned, owned, children_of_shape h, transcluded_of_shape h]

end ScopeRecord

/-! ## Owning -/

namespace Arena

/-- One scope owns another, as a child or as a reference. -/
def Owns (a : Arena ScopeRecord) (p c : ScopeId) : Prop := ∃ r, a.get? p = some r ∧ c ∈ r.owned

/-- One scope owns another, directly or through others, or is the other. -/
def Reaches (a : Arena ScopeRecord) : ScopeId → ScopeId → Prop := Relation.ReflTransGen a.Owns

variable {a a' : Arena ScopeRecord}

theorem Reaches.mono (h : ∀ p c, a.Owns p c → a'.Owns p c) {x y : ScopeId} (hr : a.Reaches x y) :
    a'.Reaches x y :=
  Relation.ReflTransGen.mono (fun p c => h p c) _ _ hr

end Arena

/-- The links of a record agree with the records that they lead to. -/
structure ScopeRecord.Linked (a : Arena ScopeRecord) (id : ScopeId) (r : ScopeRecord) : Prop where
  nodup : r.owned.Nodup
  child : ∀ c ∈ r.children, ∃ s, a.get? c = some s ∧ s.parent = some id ∧ s.transclusion = false
  reference : ∀ e ∈ r.transcluded, ∃ s, a.get? e.2 = some s ∧ s.parent = some id ∧
    s.transclusion = true ∧ s.node = e.1
  keys : r.transcluded.map Prod.fst = r.bullet.referencedIds
  named : r.named = a.firstByKey r.children []
  blank : r.placeholder = true → r.bullet = .literal [] ∧ r.children = []

namespace ScopeRecord.Linked

variable {a a' : Arena ScopeRecord} {id c : ScopeId} {r s : ScopeRecord}

/-- What a scope owns has the scope as its parent. -/
theorem owned (h : r.Linked a id) (hc : c ∈ r.owned) :
    ∃ s, a.get? c = some s ∧ s.parent = some id := by
  rcases List.mem_append.mp hc with hc | hc
  · obtain ⟨s, hs, hp, -⟩ := h.child c hc
    exact ⟨s, hs, hp⟩
  · obtain ⟨e, he, rfl⟩ := List.mem_map.mp hc
    obtain ⟨s, hs, hp, -⟩ := h.reference e he
    exact ⟨s, hs, hp⟩

/-- Links see of other records no more than their faces. -/
theorem congr (h : r.Linked a id) (hrs : r.shape = s.shape)
    (hface : ∀ c ∈ r.owned, ∀ rc, a.get? c = some rc → ∃ rc', a'.get? c = some rc' ∧
      rc.face = rc'.face) : s.Linked a' id := by
  have hchildren := children_of_shape hrs
  have htrans := transcluded_of_shape hrs
  refine ⟨?_, ?_, ?_, ?_, ?_, ?_⟩
  · rw [← owned_of_shape hrs]
    exact h.nodup
  · intro c hc
    rw [← hchildren] at hc
    obtain ⟨rc, hrc, hp, ht⟩ := h.child c hc
    obtain ⟨rc', hrc', hf⟩ := hface c (List.mem_append_left _ hc) rc hrc
    exact ⟨rc', hrc', parent_of_face hf ▸ hp, transclusion_of_face hf ▸ ht⟩
  · intro e he
    rw [← htrans] at he
    obtain ⟨rc, hrc, hp, ht, hn⟩ := h.reference e he
    obtain ⟨rc', hrc', hf⟩ :=
      hface e.2 (List.mem_append_right _ (List.mem_map_of_mem he)) rc hrc
    exact ⟨rc', hrc', parent_of_face hf ▸ hp, transclusion_of_face hf ▸ ht,
      node_of_face hf ▸ hn⟩
  · rw [← htrans, ← bullet_of_face (face_of_shape hrs)]
    exact h.keys
  · rw [← named_of_shape hrs, ← hchildren, h.named]
    refine Arena.firstByKey_congr ?_ []
    intro c hc
    obtain ⟨rc, hrc, -⟩ := h.child c hc
    obtain ⟨rc', hrc', hf⟩ := hface c (List.mem_append_left _ hc) rc hrc
    simp only [Arena.key?, hrc, hrc', Option.bind_some, key?, bullet_of_face hf]
  · have hplaceholder : r.placeholder = s.placeholder := (congrArg placeholder hrs :)
    rw [← hplaceholder, ← bullet_of_face (face_of_shape hrs), ← hchildren]
    exact h.blank

end ScopeRecord.Linked

end FormulaOutline
