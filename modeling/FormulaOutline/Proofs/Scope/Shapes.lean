import FormulaOutline.Proofs.Scope.Aging
import FormulaOutline.Proofs.Scope.Layout
import FormulaOutline.Scope.Reading

/-!
# Trees of one shape

Evaluation changes what stands on the scopes of a tree, and nothing else. What is read off the rest of
two such trees is the same.

* `ScopeTree.SameShape`: the trees differ in how far their evaluation has come.
* `SameShape.lookup?` and others: what does not depend on it.
-/

namespace FormulaOutline.ScopeTree

variable {t t' t'' : ScopeTree} {x : ScopeId}

/-- Two trees differ in how far their evaluation has come, and in nothing else. -/
structure SameShape (t t' : ScopeTree) : Prop where
  root : t.root = t'.root
  slots : t.arena.slots.size = t'.arena.slots.size
  shapes : ∀ x, (t.record? x).map ScopeRecord.shape = (t'.record? x).map ScopeRecord.shape

theorem SameShape.refl (t : ScopeTree) : t.SameShape t := ⟨rfl, rfl, fun _ => rfl⟩

theorem SameShape.symm (h : t.SameShape t') : t'.SameShape t :=
  ⟨h.root.symm, h.slots.symm, fun x => (h.shapes x).symm⟩

theorem SameShape.trans (h : t.SameShape t') (h' : t'.SameShape t'') : t.SameShape t'' :=
  ⟨h.root.trans h'.root, h.slots.trans h'.slots, fun x => (h.shapes x).trans (h'.shapes x)⟩

/-- What a record says apart from its evaluation is the same in both trees. -/
theorem SameShape.map_record? {α : Type} (h : t.SameShape t') (f : ScopeRecord → α)
    (hf : ∀ r, f r.shape = f r) (x : ScopeId) : (t.record? x).map f = (t'.record? x).map f := by
  have hComp : f = f ∘ ScopeRecord.shape := funext fun r => (hf r).symm
  rw [hComp, ← Option.map_map, h.shapes, Option.map_map]

/-- A change of how far the evaluation of a scope has come. -/
theorem sameShape_modify (t : ScopeTree) (x : ScopeId) {f : ScopeRecord → ScopeRecord}
    (hf : ∀ r, (f r).shape = r.shape) : t.SameShape (t.modify x f) where
  root := rfl
  slots := (t.arena.size_modify x f).symm
  shapes y := by
    rw [record?_modify]
    split
    · rename_i hy
      rw [hy, Option.map_map]
      exact congrArg (Option.map · _) (funext hf).symm
    · rfl

theorem SameShape.isLive (h : t.SameShape t') (x : ScopeId) : t.isLive x = t'.isLive x := by
  have hSome := congrArg Option.isSome (h.shapes x)
  rwa [Option.isSome_map, Option.isSome_map] at hSome

theorem SameShape.children (h : t.SameShape t') (x : ScopeId) : t.children x = t'.children x := by
  rw [ScopeTree.children, h.map_record? ScopeRecord.children (fun _ => rfl) x]
  rfl

theorem SameShape.transcludedScope? (h : t.SameShape t') (x : ScopeId) (node : NodeId) :
    t.transcludedScope? x node = t'.transcludedScope? x node := by
  rw [ScopeTree.transcludedScope?, ScopeTree.transcluded,
    h.map_record? ScopeRecord.transcluded (fun _ => rfl) x]
  rfl

theorem SameShape.property? (h : t.SameShape t') (x : ScopeId) (key : String) :
    t.property? x key = t'.property? x key := by
  rw [ScopeTree.property?, ScopeTree.properties, h.map_record? ScopeRecord.named (fun _ => rfl) x]
  rfl

theorem record?_of_mem_upwardWithin {fuel : Nat} {e : ScopeId × ScopeRecord}
    (he : e ∈ t.upwardWithin fuel x) : t.record? e.1 = some e.2 := by
  induction fuel generalizing x with
  | zero => cases he
  | succ fuel ih =>
    rw [upwardWithin] at he
    cases hx : t.record? x with
    | none => simp [hx] at he
    | some r =>
      simp only [hx, List.mem_cons] at he
      rcases he with rfl | he
      · exact hx
      · split at he
        · cases he
        · exact ih he

theorem SameShape.upwardWithin (h : t.SameShape t') (fuel : Nat) (x : ScopeId) :
    (t.upwardWithin fuel x).map Prod.fst = (t'.upwardWithin fuel x).map Prod.fst := by
  induction fuel generalizing x with
  | zero => rfl
  | succ fuel ih =>
    have hParent := h.map_record? ScopeRecord.parent (fun _ => rfl) x
    rw [ScopeTree.upwardWithin, ScopeTree.upwardWithin]
    cases hr : t.record? x with
    | none =>
      cases hr' : t'.record? x with
      | none => rfl
      | some r' => rw [hr, hr'] at hParent; cases hParent
    | some r =>
      cases hr' : t'.record? x with
      | none => rw [hr, hr'] at hParent; cases hParent
      | some r' =>
        rw [hr, hr', Option.map_some, Option.map_some, Option.some.injEq] at hParent
        simp only [List.map_cons, hParent]
        cases r'.parent with
        | none => rfl
        | some p => rw [ih p]

theorem findSome?_map_fst {β : Type} (l : List (ScopeId × ScopeRecord)) (f : ScopeId → Option β) :
    l.findSome? (fun e => f e.1) = (l.map Prod.fst).findSome? f := by
  rw [List.findSome?_map]
  rfl

theorem SameShape.lookup? (h : t.SameShape t') (x : ScopeId) (name : String) :
    t.lookup? x name = t'.lookup? x name := by
  have hJoin : ∀ s : ScopeTree, s.parent? x = ((s.record? x).map ScopeRecord.parent).join := by
    intro s
    rw [ScopeTree.parent?]
    cases s.record? x <;> rfl
  have hParent : t.parent? x = t'.parent? x := by
    rw [hJoin, hJoin, h.map_record? ScopeRecord.parent (fun _ => rfl) x]
  have hAncestors : (t.ancestors x).map Prod.fst = (t'.ancestors x).map Prod.fst := by
    rw [ScopeTree.ancestors, ScopeTree.ancestors, hParent]
    cases t'.parent? x with
    | none => rfl
    | some p =>
      simp only [ScopeTree.upward, h.slots]
      exact h.upwardWithin _ p
  have hProperty : (fun a => (t.property? a name).filter (· != x)) =
      fun a => (t'.property? a name).filter (· != x) := by
    funext a
    rw [h.property? a name]
  rw [ScopeTree.lookup?, ScopeTree.lookup?]
  simp only [findSome?_map_fst _ fun a => (t.property? a name).filter (· != x),
    findSome?_map_fst _ fun a => (t'.property? a name).filter (· != x), hAncestors, hProperty]

end FormulaOutline.ScopeTree
