import FormulaOutline.Proofs.Scope.Rebuilding
import FormulaOutline.Scope.Reading

/-!
# Well-formed scope trees

What can be seen of a rooted tree through its records.

* `WellFormed`: every scope has one place below the root, no link leads astray, nothing is left
  over, and keys and references are those of the bullets.
* `Rooted.wellFormed`: the invariant of scope trees gives all of this.
-/

namespace FormulaOutline.ScopeTree

/-- Every scope has one place below the root, every link leads to a scope, and there are no scopes
but those below the root. -/
structure WellFormed (t : ScopeTree) : Prop where
  root : ∃ r, t.record? t.root = some r ∧ r.parent = none
  /-- Every other scope is once among those that its parent owns, and no other scope owns it. -/
  place : ∀ x r, t.record? x = some r → x ≠ t.root →
    ∃ p rp, r.parent = some p ∧ t.record? p = some rp ∧ rp.owned.count x = 1 ∧
      ∀ q rq, t.record? q = some rq → x ∈ rq.owned → q = p
  parent_live : ∀ x r, t.record? x = some r → ∀ p ∈ r.parent, t.isLive p = true
  child_live : ∀ x r, t.record? x = some r → ∀ c ∈ r.children, t.isLive c = true
  reference_live : ∀ x r, t.record? x = some r → ∀ e ∈ r.transcluded, t.isLive e.2 = true
  named_live : ∀ x r, t.record? x = some r → ∀ e ∈ r.named, t.isLive e.2 = true
  /-- The scopes are those that are reached from the root. -/
  live_iff : ∀ x, t.isLive x = true ↔ t.arena.Reaches t.root x
  /-- A walk from the root meets each scope once, and no others are counted. -/
  owned_nodup : (t.owned t.root).Nodup
  mem_owned : ∀ x, x ∈ t.owned t.root ↔ t.isLive x = true
  size : t.size = (t.owned t.root).length
  /-- The slots without a scope are listed once each. -/
  vacant_nodup : t.arena.vacant.Nodup
  mem_vacant : ∀ i, i ∈ t.arena.vacant ↔ ∃ g, t.arena.slots[i]? = some ⟨g, none⟩
  /-- A scope is flagged just when it stands among its parent's references. -/
  transclusion : ∀ x r, t.record? x = some r → (r.transclusion = true ↔
    ∃ p rp, r.parent = some p ∧ t.record? p = some rp ∧ x ∈ rp.transcluded.map Prod.snd)
  /-- A key leads to the first child that has it. -/
  property : ∀ x r, t.record? x = some r → ∀ key,
    t.property? x key = r.children.find? fun c => t.key? c == some key
  named_nodup : ∀ x r, t.record? x = some r → (r.named.map Prod.fst).Nodup
  /-- The references are those of the bullet, in its order. -/
  references : ∀ x r, t.record? x = some r → r.placeholder = false →
    r.transcluded.map Prod.fst = r.bullet.referencedIds
  reference_node : ∀ x r, t.record? x = some r → ∀ e ∈ r.transcluded, t.node? e.2 = some e.1
  /-- A placeholder stands for nothing else. -/
  placeholder : ∀ x r, t.record? x = some r → r.placeholder = true → r.owned = []

variable {t : ScopeTree} {x p : ScopeId} {r rp : ScopeRecord}

theorem isLive_iff : t.isLive x = true ↔ ∃ r, t.record? x = some r := Arena.isLive_iff

namespace Rooted

variable (h : t.Rooted)
include h

theorem isLive_of_owned (hx : t.record? x = some r) {c : ScopeId} (hc : c ∈ r.owned) :
    t.isLive c = true := by
  obtain ⟨s, hs, -⟩ := h.live_of_owns ⟨r, hx, hc⟩
  exact isLive_iff.mpr ⟨s, hs⟩

theorem isLive_iff_reaches : t.isLive x = true ↔ t.arena.Reaches t.root x := by
  rw [isLive_iff]
  constructor
  · rintro ⟨r, hr⟩
    exact h.reached x r hr
  · intro hx
    obtain ⟨n, hn⟩ := reaches_iff_descends.mp hx
    obtain ⟨s, hs, -⟩ := h.root
    exact h.live_of_descends ⟨s, hs⟩ hn

theorem mem_owned_root : x ∈ t.owned t.root ↔ t.isLive x = true := by
  obtain ⟨s, hs, -⟩ := h.root
  rw [mem_owned_iff h ⟨s, hs⟩, h.isLive_iff_reaches]

/-- The scopes are as many as a walk from the root meets. -/
theorem size_eq_length_owned : t.size = (t.owned t.root).length := by
  rw [size, Arena.size_eq_length_entries, ← List.length_map Prod.fst]
  refine List.Perm.length_eq ?_
  rw [List.perm_ext_iff_of_nodup t.arena.nodup_entries (nodup_owned h t.root)]
  intro x
  rw [h.mem_owned_root, isLive_iff, List.mem_map]
  constructor
  · rintro ⟨⟨y, r⟩, hmem, rfl⟩
    exact ⟨r, Arena.mem_entries_iff.mp hmem⟩
  · rintro ⟨r, hr⟩
    exact ⟨(x, r), Arena.mem_entries_iff.mpr hr, rfl⟩

/-- A scope that stands among the references of another one is flagged, one among the children is
not. -/
theorem transclusion_iff (hx : t.record? x = some r) : r.transclusion = true ↔
    ∃ p rp, r.parent = some p ∧ t.record? p = some rp ∧ x ∈ rp.transcluded.map Prod.snd := by
  constructor
  · intro hflag
    rcases h.owner x r hx with rfl | ⟨p, hp, rp, hrp, hmem⟩
    · obtain ⟨s, hs, -, hs'⟩ := h.root
      rw [hx] at hs
      cases hs
      rw [hflag] at hs'
      cases hs'
    · refine ⟨p, rp, hp, hrp, ?_⟩
      rcases List.mem_append.mp hmem with hc | hc
      · obtain ⟨s, hs, -, hs'⟩ := (h.linked p rp hrp).child x hc
        rw [show t.arena.get? x = some r from hx] at hs
        cases hs
        rw [hflag] at hs'
        cases hs'
      · exact hc
  · rintro ⟨p, rp, -, hrp, hmem⟩
    obtain ⟨e, he, rfl⟩ := List.mem_map.mp hmem
    obtain ⟨s, hs, -, hs', -⟩ := (h.linked p rp hrp).reference e he
    rw [show t.arena.get? e.2 = some r from hx] at hs
    cases hs
    exact hs'

theorem property?_eq (hx : t.record? x = some r) (key : String) :
    t.property? x key = r.children.find? fun c => t.key? c == some key := by
  rw [property?, properties, hx, Option.map_some, Option.getD_some, (h.linked x r hx).named,
    Arena.firstByKey_lookup, List.lookup_nil, Option.none_or]
  rfl

/-- Every scope but the root is once among those that its parent owns. -/
theorem place (hx : t.record? x = some r) (hroot : x ≠ t.root) :
    ∃ p rp, r.parent = some p ∧ t.record? p = some rp ∧ rp.owned.count x = 1 ∧
      ∀ q rq, t.record? q = some rq → x ∈ rq.owned → q = p := by
  rcases h.owner x r hx with he | ⟨p, hp, rp, hrp, hmem⟩
  · exact (hroot he).elim
  · refine ⟨p, rp, hp, hrp, List.count_eq_one_of_mem (h.linked p rp hrp).nodup hmem, ?_⟩
    intro q rq hrq hq
    exact h.owner_unique ⟨rq, hrq, hq⟩ ⟨rp, hrp, hmem⟩

theorem named_mem_children (hx : t.record? x = some r) {e : String × ScopeId}
    (he : e ∈ r.named) : e.2 ∈ r.children := by
  have hnamed := (h.linked x r hx).named
  have hnodup := Arena.nodup_firstByKey (a := t.arena) r.children [] List.nodup_nil
  rw [← hnamed] at hnodup
  have hlookup : r.named.lookup e.1 = some e.2 := lookup_of_mem hnodup he
  rw [hnamed, Arena.firstByKey_lookup, List.lookup_nil, Option.none_or] at hlookup
  exact List.mem_of_find?_eq_some hlookup

theorem owned_of_placeholder (hx : t.record? x = some r) (hp : r.placeholder = true) :
    r.owned = [] := by
  obtain ⟨hb, hc⟩ := (h.linked x r hx).blank hp
  have hkeys := (h.linked x r hx).keys
  rw [hb] at hkeys
  have ht : r.transcluded = [] := List.map_eq_nil_iff.mp hkeys
  rw [ScopeRecord.owned, hc, ht]
  rfl

theorem wellFormed : t.WellFormed where
  root := by
    obtain ⟨r, hr, hp, -⟩ := h.root
    exact ⟨r, hr, hp⟩
  place := fun x r hx => h.place hx
  parent_live := by
    intro x r hx p hp
    obtain ⟨rp, hrp, -⟩ := h.owns_of_parent hx hp
    exact isLive_iff.mpr ⟨rp, hrp⟩
  child_live := fun x r hx c hc => h.isLive_of_owned hx (List.mem_append_left _ hc)
  reference_live := fun x r hx e he =>
    h.isLive_of_owned hx (List.mem_append_right _ (List.mem_map_of_mem he))
  named_live := fun x r hx e he =>
    h.isLive_of_owned hx (List.mem_append_left _ (h.named_mem_children hx he))
  live_iff := fun x => h.isLive_iff_reaches
  owned_nodup := nodup_owned h t.root
  mem_owned := fun x => h.mem_owned_root
  size := h.size_eq_length_owned
  vacant_nodup := h.sound.vacant_nodup
  mem_vacant := h.sound.mem_vacant
  transclusion := fun x r hx => h.transclusion_iff hx
  property := fun x r hx key => h.property?_eq hx key
  named_nodup := by
    intro x r hx
    rw [(h.linked x r hx).named]
    exact Arena.nodup_firstByKey _ [] List.nodup_nil
  references := fun x r hx _ => (h.linked x r hx).keys
  reference_node := by
    intro x r hx e he
    obtain ⟨s, hs, -, -, hn⟩ := (h.linked x r hx).reference e he
    rw [node?, show t.record? e.2 = some s from hs, Option.map_some, hn]
  placeholder := fun x r hx hp => h.owned_of_placeholder hx hp

end Rooted

end FormulaOutline.ScopeTree
