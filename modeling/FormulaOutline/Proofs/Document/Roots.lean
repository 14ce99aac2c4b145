import FormulaOutline.Proofs.Document.Linked
import Mathlib.Data.List.Induction

/-!
# The parent of the root

A node that is put below another one must not be above it, and nothing else is asked. So the root can
be moved like any other node: it only has to go below one that is detached from it. No operation but
the removal from that parent makes it the top again.

* `Linked.IsTop`: the root has no parent and is nobody's child.
* `Edit.Uproots`, `Edit.Releases`: operations that put the root below a node or take it away again.
* `Linked.isTop_apply_iff`: what one operation does to the place of the root.
* `Linked.isTop_run_iff`: after a run the root is the top if and only if every operation of the run
  that put it below a node has been followed by one that took it away again.
* `Linked.root_below_draft`: a run of two operations after which it is not.
-/

namespace FormulaOutline

open Relation

/-- An operation puts the root below a node, which is there and is not below the root. -/
def Edit.Uproots (e : Edit) (s : Linked) : Prop :=
  match e with
  | .insert p _ c => c = s.document.root ∧ s.document.contains p = true ∧ ¬ s.Above c p
  | _ => False

/-- An operation takes the root away from its parent. -/
def Edit.Releases (e : Edit) (s : Linked) : Prop :=
  match e with
  | .remove p c => c = s.document.root ∧ s.parents c = some p
  | _ => False

namespace Document

variable {d d' : Document} {p c : NodeId}

/-- A node can be taken away from its parent only. -/
theorem Tidy.removeChild_eq_ok_iff (hd : d.Tidy) :
    (∃ d', d.removeChild p c = .ok d') ↔ d.parent? c = some p := by
  rw [hd.parent?_eq_some_iff]
  constructor
  · rintro ⟨d', h⟩
    rw [Document.removeChild] at h
    cases hp : d.find p with
    | error e =>
      rw [hp] at h
      cases h
    | ok n =>
      simp only [hp, bind, Except.bind] at h
      split at h
      · rename_i hc
        exact ⟨n, find_eq_ok.mp hp, List.contains_iff_mem.mp hc⟩
      · cases h
  · rintro ⟨n, hn, hc⟩
    refine ⟨(d.update p (·.without c)).bump, ?_⟩
    rw [Document.removeChild, find_eq_ok.mpr hn]
    exact if_pos (List.contains_iff_mem.mpr hc)

theorem Tidy.parent?_remove (hd : d.Tidy) (h : d.removeChild p c = .ok d') (x : NodeId) :
    d'.parent? x = if x = c then none else d.parent? x := by
  have hParent := hd.removeChild_eq_ok_iff.mp ⟨d', h⟩
  obtain rfl := removeChild_eq_ok h
  rw [← hd.parent?_detach, Document.detach, hParent]
  rfl

theorem Tidy.parent?_add (hd : d.Tidy) {id : NodeId} {value : String}
    (h : d.addChild p id value = .ok d') {x : NodeId} (hx : d.contains x = true) :
    d'.parent? x = d.parent? x := by
  have hNew : d.contains id = false := by
    rw [← Bool.not_eq_true]
    intro hOld
    rw [Document.addChild, if_pos hOld] at h
    cases h
  have hne : x ≠ id := by
    rintro rfl
    rw [hx] at hNew
    cases hNew
  obtain ⟨index, hInsert⟩ := addChild_eq_ok h
  rw [(hd.append hNew value).parent?_insert hInsert, if_neg hne, parent?_append]

theorem root_attempt {e : Edit} (h : d.attempt e = .ok d') : d'.root = d.root := by
  cases e with
  | create id value =>
    cases h
    rfl
  | add parent id value =>
    obtain ⟨index, hInsert⟩ := addChild_eq_ok h
    exact (insert_frame hInsert).1
  | insert parent index child => exact (insert_frame h).1
  | remove parent child =>
    obtain rfl := removeChild_eq_ok h
    rfl
  | set id value =>
    obtain rfl := setValue_eq_ok h
    rfl

theorem root_edit (d : Document) (e : Edit) : (d.edit e).root = d.root := by
  rw [edit]
  cases h : d.attempt e with
  | error error => rfl
  | ok d' => exact root_attempt h

end Document

namespace Linked

variable {d d' : Document} {s : Linked}

/-- The root has no parent and is in no list of children. -/
structure IsTop (s : Linked) : Prop where
  parents : s.parents s.document.root = none
  children : ∀ n ∈ s.document.nodes, s.document.root ∉ n.children

theorem InOrder.isTop_iff (h : s.InOrder) : s.IsTop ↔ s.parents s.document.root = none := by
  refine ⟨IsTop.parents, fun hNone => ⟨hNone, fun n hn => ?_⟩⟩
  rw [← List.count_eq_zero, h.count n.id n s.document.root (h.keyed.2 n hn), hNone]
  rfl

/-! ## One operation -/

theorem attempt_of_uproots (hd : d.Tidy) (hRoot : d.contains d.root = true) {e : Edit}
    (h : e.Uproots (of d)) : ∃ d', d.attempt e = .ok d' := by
  cases e with
  | insert parent index child =>
    obtain ⟨rfl, hParent, hNot⟩ := h
    rw [Above, hasChild_eq hd] at hNot
    exact (hd.insertChild_eq_ok_iff index).mpr ⟨hParent, hRoot, hNot⟩
  | _ => exact h.elim

theorem attempt_of_releases (hd : d.Tidy) {e : Edit} (h : e.Releases (of d)) :
    ∃ d', d.attempt e = .ok d' := by
  cases e with
  | remove parent child => exact hd.removeChild_eq_ok_iff.mpr h.2
  | _ => exact h.elim

/-- The parent of the root after an operation that succeeds. -/
theorem parent?_root_attempt (hd : d.Tidy) (hRoot : d.contains d.root = true) {e : Edit}
    (h : d.attempt e = .ok d') :
    d'.parent? d.root = none ↔
      ¬ e.Uproots (of d) ∧ (d.parent? d.root = none ∨ e.Releases (of d)) := by
  cases e with
  | create id value =>
    cases h
    change (d.append id value).parent? d.root = none ↔ _
    rw [Document.parent?_append]
    simp [Edit.Uproots, Edit.Releases]
  | add parent id value =>
    rw [hd.parent?_add h hRoot]
    simp [Edit.Uproots, Edit.Releases]
  | set id value =>
    obtain rfl := Document.setValue_eq_ok h
    change (d.update id fun n => { n with value }).parent? d.root = none ↔ _
    rw [Document.parent?_setValue]
    simp [Edit.Uproots, Edit.Releases]
  | remove parent child =>
    have hParent := hd.removeChild_eq_ok_iff.mp ⟨d', h⟩
    rw [hd.parent?_remove h]
    by_cases hChild : d.root = child
    · subst hChild
      simp [Edit.Uproots, Edit.Releases, hParent]
    · simp [Edit.Uproots, Edit.Releases, hChild, Ne.symm hChild]
  | insert parent index child =>
    rw [hd.parent?_insert h]
    by_cases hChild : d.root = child
    · -- The checks that the insertion has passed are those of the definition.
      obtain ⟨hThere, -, hNot⟩ := (hd.insertChild_eq_ok_iff index).mp ⟨d', h⟩
      have hUproots : (Edit.insert parent index child).Uproots (of d) := by
        rw [← hasChild_eq hd] at hNot
        exact ⟨hChild.symm, hThere, hNot⟩
      simp [hChild, hUproots]
    · simp [Edit.Uproots, Edit.Releases, hChild, Ne.symm hChild]

theorem parent?_root_edit (hd : d.Tidy) (hRoot : d.contains d.root = true) (e : Edit) :
    (d.edit e).parent? d.root = none ↔
      ¬ e.Uproots (of d) ∧ (d.parent? d.root = none ∨ e.Releases (of d)) := by
  rw [Document.edit]
  cases h : d.attempt e with
  | ok d' => exact parent?_root_attempt hd hRoot h
  | error error =>
    have hFails : ∀ d', d.attempt e ≠ .ok d' := by
      intro d' hOk
      rw [h] at hOk
      cases hOk
    have hUproots : ¬ e.Uproots (of d) := fun hUp =>
      (attempt_of_uproots hd hRoot hUp).elim hFails
    have hReleases : ¬ e.Releases (of d) := fun hRelease =>
      (attempt_of_releases hd hRelease).elim hFails
    simp [hUproots, hReleases, Except.toOption]

/-- An operation leaves the root at the top if it does not put it below a node, and if the root has
been there before or is taken back. -/
theorem isTop_apply_iff (hd : d.Tidy) (hRoot : d.contains d.root = true) {e : Edit}
    (hFresh : e.IsFresh d) :
    ((of d).apply e).2.IsTop ↔ ¬ e.Uproots (of d) ∧ ((of d).IsTop ∨ e.Releases (of d)) := by
  rw [apply_of_edit hd, (inOrder_of (tidy_edit hd hFresh)).isTop_iff, (inOrder_of hd).isTop_iff]
  change (d.edit e).parent? (d.edit e).root = none ↔ _
  rw [Document.root_edit]
  exact parent?_root_edit hd hRoot e

/-! ## Runs -/

theorem run_append (s : Linked) (edits : List Edit) (e : Edit) :
    s.run (edits ++ [e]) = ((s.run edits).apply e).2 := by
  simp [run, List.foldl_append]

theorem allFresh_append {edits : List Edit} {e : Edit} :
    s.AllFresh (edits ++ [e]) ↔ s.AllFresh edits ∧ e.IsFresh (s.run edits).document := by
  induction edits generalizing s with
  | nil => simp [AllFresh, run]
  | cons f edits ih =>
    rw [List.cons_append, AllFresh, AllFresh, ih, and_assoc]
    rfl

/-- Every operation of a run that has put the root below a node is followed by one that has taken it
away. -/
def Undone (s : Linked) (edits : List Edit) : Prop :=
  ∀ before e after, edits = before ++ e :: after → e.Uproots (s.run before) →
    ∃ middle f rest, after = middle ++ f :: rest ∧ f.Releases (s.run (before ++ e :: middle))

theorem undone_append {edits : List Edit} {e : Edit} :
    s.Undone (edits ++ [e]) ↔
      ¬ e.Uproots (s.run edits) ∧ (s.Undone edits ∨ e.Releases (s.run edits)) := by
  constructor
  · intro h
    refine ⟨fun hUp => ?_, or_iff_not_imp_right.mpr fun hNot before f after hSplit hUp => ?_⟩
    · obtain ⟨middle, g, rest, hNil, -⟩ := h edits e [] rfl hUp
      simp at hNil
    · obtain ⟨middle, g, rest, hRest, hRelease⟩ := h before f (after ++ [e]) (by simp [hSplit]) hUp
      rcases List.eq_nil_or_concat rest with rfl | ⟨rest, g', rfl⟩
      · -- The operation that takes the root away would be the last one.
        obtain ⟨rfl, hEq⟩ := List.append_inj' hRest rfl
        obtain rfl := (List.cons.inj hEq).1
        exact (hNot (hSplit ▸ hRelease)).elim
      · refine ⟨middle, g, rest, ?_, hRelease⟩
        rw [List.concat_eq_append, ← List.cons_append, ← List.append_assoc] at hRest
        exact (List.append_inj' hRest rfl).1
  · rintro ⟨hNot, hCase⟩ before f after hSplit hUp
    rcases List.eq_nil_or_concat after with rfl | ⟨after, g, rfl⟩
    · obtain ⟨rfl, hEq⟩ := List.append_inj' hSplit rfl
      obtain rfl := (List.cons.inj hEq).1
      exact (hNot hUp).elim
    · rw [List.concat_eq_append, ← List.cons_append, ← List.append_assoc] at hSplit
      obtain ⟨rfl, hEq⟩ := List.append_inj' hSplit rfl
      obtain rfl := (List.cons.inj hEq).1
      rcases hCase with hUndone | hRelease
      · obtain ⟨middle, g, rest, rfl, hRelease⟩ := hUndone before f after rfl hUp
        exact ⟨middle, g, rest ++ [e], by simp, hRelease⟩
      · exact ⟨after, e, [], by simp, hRelease⟩

theorem contains_root_editAll (hRoot : d.contains d.root = true) (edits : List Edit) :
    (d.editAll edits).contains (d.editAll edits).root = true := by
  induction edits generalizing d with
  | nil => exact hRoot
  | cons e edits ih =>
    refine ih ?_
    rw [Document.root_edit]
    exact contains_edit hRoot e

/-- A run that starts with the root at the top. -/
theorem isTop_run_of (hd : d.Tidy) (hRoot : d.contains d.root = true) (hTop : (of d).IsTop)
    {edits : List Edit} (hFresh : (of d).AllFresh edits) :
    ((of d).run edits).IsTop ↔ (of d).Undone edits := by
  induction edits using List.reverseRecOn with
  | nil => exact iff_of_true hTop fun before e after hSplit => by simp at hSplit
  | append_singleton edits e ih =>
    obtain ⟨hFirst, hLast⟩ := allFresh_append.mp hFresh
    obtain ⟨hOf, hTidy⟩ := run_of hd hFirst
    have hStep := isTop_apply_iff hTidy (contains_root_editAll hRoot edits) (e := e)
      (by rwa [hOf] at hLast)
    rw [run_append, undone_append, ← ih hFirst, hOf]
    exact hStep

theorem undone_adds (s : Linked) (lines : List (NodeId × NodeId × String)) :
    s.Undone (adds lines) := by
  intro before e after hSplit hUp
  have hMem : e ∈ adds lines := hSplit ▸ by simp
  obtain ⟨l, -, rfl⟩ := List.mem_map.mp hMem
  exact hUp.elim

theorem isTop_ofRoot (id : NodeId) (value : String) : (of (.ofRoot id value)).IsTop := by
  rw [(inOrder_of (Document.tidy_ofRoot id value)).isTop_iff, of_parents, parent?_ofRoot]

theorem contains_ofRoot (id : NodeId) (value : String) :
    (Document.ofRoot id value).contains id = true := by
  simp [Document.contains, Document.ofRoot]

/-- New documents and outlines have their root at the top. -/
theorem IsStart.isTop (h : s.IsStart) :
    s.document.contains s.document.root = true ∧ s.IsTop := by
  obtain ⟨hOf, -⟩ := h.eq_of
  cases h with
  | ofRoot id value =>
    rw [hOf]
    exact ⟨contains_ofRoot id value, isTop_ofRoot id value⟩
  | @ofOutline _ _ _ _ lines s _ hRun hSame =>
    have hEmpty : (⟨.empty, fun _ => none⟩ : Linked) = of .empty := by
      rw [of, Document.empty, parent?_ofRoot]
    have hTidy : Document.empty.Tidy := Document.tidy_ofRoot "root" ""
    have hRoot : Document.empty.contains Document.empty.root = true := contains_ofRoot "root" ""
    have hFresh := allFresh_adds (of .empty) lines
    have hTop := (isTop_run_of hTidy hRoot (isTop_ofRoot "root" "") hFresh).mpr
      (undone_adds _ lines)
    obtain ⟨hOf', -⟩ := run_of hTidy hFresh
    rw [hEmpty] at hRun
    rw [hRun] at hTop hOf'
    subst hSame
    refine ⟨?_, hTop.parents, hTop.children⟩
    rw [hOf']
    exact contains_root_editAll hRoot (adds lines)

/-- Whatever operations are tried on a new document or an outline, the root has no parent and is in no
list of children if and only if every one of them that put it below a node has been undone. -/
theorem isTop_run_iff {s : Linked} (hStart : s.IsStart) {edits : List Edit}
    (hFresh : s.AllFresh edits) : (s.run edits).IsTop ↔ s.Undone edits := by
  obtain ⟨hRoot, hTop⟩ := hStart.isTop
  obtain ⟨hOf, hTidy⟩ := hStart.eq_of
  rw [hOf] at hTop hFresh ⊢
  exact isTop_run_of hTidy hRoot hTop hFresh

/-- A node is made, the root is put below it and taken away again. -/
def excursion : List Edit :=
  [.create (IdSupply.nameOf 1) "x", .insert (IdSupply.nameOf 1) 0 "root",
    .remove (IdSupply.nameOf 1) "root"]

theorem isTop_run_iff_excursion :
    (⟨.empty, fun _ => none⟩ : Linked).AllFresh excursion ∧
      ((run ⟨.empty, fun _ => none⟩ excursion).IsTop ↔
        Undone ⟨.empty, fun _ => none⟩ excursion) ∧
      (run ⟨.empty, fun _ => none⟩ excursion).IsTop := by
  have hFresh : (⟨.empty, fun _ => none⟩ : Linked).AllFresh excursion :=
    ⟨rfl, trivial, trivial, trivial⟩
  refine ⟨hFresh, isTop_run_iff (.ofRoot "root" "") hFresh, by rfl, by decide⟩

/-- Before that removal the root has a parent. -/
theorem root_below_draft :
    (⟨.empty, fun _ => none⟩ : Linked).IsStart ∧
      (⟨.empty, fun _ => none⟩ : Linked).AllFresh (excursion.take 2) ∧
      (run ⟨.empty, fun _ => none⟩ (excursion.take 2)).document =
        ⟨"root", [⟨"root", "", []⟩, ⟨IdSupply.nameOf 1, "x", ["root"]⟩], 2⟩ ∧
      (run ⟨.empty, fun _ => none⟩ (excursion.take 2)).parents "root" = some (IdSupply.nameOf 1) ∧
      ¬ (run ⟨.empty, fun _ => none⟩ (excursion.take 2)).IsTop := by
  have hParent : (run ⟨.empty, fun _ => none⟩ (excursion.take 2)).parents "root" =
      some (IdSupply.nameOf 1) := by decide
  refine ⟨.ofRoot "root" "", ⟨rfl, trivial, trivial⟩, by decide, hParent, fun hTop => ?_⟩
  have hNone := hTop.parents
  cases hParent.symm.trans hNone

end Linked

end FormulaOutline
