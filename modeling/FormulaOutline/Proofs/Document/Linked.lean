import FormulaOutline.Proofs.Document.Editing
import Mathlib.Logic.Function.Basic

/-!
# Documents that store the parents of their nodes

The parent of a node can be stored next to the lists of children, so that it need not be searched
for. Both have to be changed together, and an operation that fails between two changes leaves what
it has changed so far. On forests this never shows: nothing fails after the first change, and the
stored parents are those that the lists tell.

* `Linked`: a document with a map of parents, `Edit` and `Linked.apply` its operations in single
  steps.
* `Linked.apply_of`: they do what the operations of `Document` do.
* `Linked.InOrder`: how lists of children, parents and ids fit together.
* `Linked.Obeys`: what an operation keeps when it fails, and what it changes when it succeeds.
* `Linked.run_inOrder`: this is so after all operations on new documents and outlines.
-/

namespace FormulaOutline

open Relation

/-! ## Operations -/

/-- An operation on a document; generated ids are given with it. -/
inductive Edit
  | create (id : NodeId) (value : String)
  | add (parent id : NodeId) (value : String)
  | insert (parent : NodeId) (index : Nat) (child : NodeId)
  | remove (parent child : NodeId)
  | set (id : NodeId) (value : String)
deriving DecidableEq, Repr

namespace Document

def attempt (d : Document) : Edit → Except DocumentError Document
  | .create id value => .ok (d.createNode id value)
  | .add parent id value => d.addChild parent id value
  | .insert parent index child => d.insertChild parent index child
  | .remove parent child => d.removeChild parent child
  | .set id value => d.setValue id value

/-- A document after an operation, which may fail. -/
def edit (d : Document) (e : Edit) : Document := (d.attempt e).toOption.getD d

def editAll (d : Document) (edits : List Edit) : Document := edits.foldl edit d

end Document

/-- The generated id of the operation is not in use. Adding checks that by itself. -/
def Edit.IsFresh (e : Edit) (d : Document) : Prop :=
  match e with
  | .create id _ => d.contains id = false
  | _ => True

/-- A document and the parents of its nodes. -/
structure Linked where
  document : Document
  parents : NodeId → Option NodeId

namespace Linked

/-- A document with the parents that its lists of children tell. -/
def of (d : Document) : Linked := ⟨d, d.parent?⟩

/-- Follows the stored parents, at most `fuel` of them, to look for a node. -/
def meets (s : Linked) (candidate : NodeId) : (fuel : Nat) → NodeId → Bool
  | 0, _ => false
  | fuel + 1, id =>
      if id = candidate then true
      else
        match s.parents id with
        | some p => s.meets candidate fuel p
        | none => false

def isSelfOrAncestor (s : Linked) (candidate id : NodeId) : Bool :=
  s.meets candidate (s.document.size + 1) id

/-- Puts a node without a parent under another one. -/
def attach (s : Linked) (parent : NodeId) (index : Nat) (child : NodeId) :
    Except DocumentError Unit × Linked :=
  match s.document.find parent with
  | .error e => (.error e, s)
  | .ok _ =>
      (.ok (), ⟨(s.document.update parent (·.withChild index child)).bump,
        Function.update s.parents child (some parent)⟩)

def insertChild (s : Linked) (parent : NodeId) (index : Nat) (child : NodeId) :
    Except DocumentError Unit × Linked :=
  match s.document.find parent, s.document.find child with
  | .error e, _ => (.error e, s)
  | .ok _, .error e => (.error e, s)
  | .ok _, .ok _ =>
      if s.isSelfOrAncestor child parent then
        (.error (.invalidStructure child (.ownDescendant parent)), s)
      else
        match s.parents child with
        | none => s.attach parent index child
        | some old =>
            let parents := Function.update s.parents child none
            match s.document.find old with
            | .error e => (.error e, ⟨s.document, parents⟩)
            | .ok _ =>
                attach ⟨s.document.update old (·.without child), parents⟩ parent index child

def removeChild (s : Linked) (parent child : NodeId) : Except DocumentError Unit × Linked :=
  match s.document.find parent with
  | .error e => (.error e, s)
  | .ok node =>
      let document := s.document.update parent (·.without child)
      if (node.without child).children.length = node.children.length then
        (.error (.invalidStructure parent (.notAChild child)), { s with document })
      else (.ok (), ⟨document.bump, Function.update s.parents child none⟩)

def addChild (s : Linked) (parent id : NodeId) (value : String) :
    Except DocumentError Unit × Linked :=
  if s.document.contains id then (.error (.invalidStructure id .idExists), s)
  else
    match s.document.find parent with
    | .error e => (.error e, s)
    | .ok node =>
        { s with document := s.document.append id value }.insertChild parent
          node.children.length id

def setValue (s : Linked) (id : NodeId) (value : String) : Except DocumentError Unit × Linked :=
  match s.document.find id with
  | .error e => (.error e, s)
  | .ok _ =>
      (.ok (), { s with document := (s.document.update id fun n => { n with value }).bump })

/-- What an operation answers and what it leaves. -/
def apply (s : Linked) : Edit → Except DocumentError Unit × Linked
  | .create id value => (.ok (), { s with document := s.document.createNode id value })
  | .add parent id value => s.addChild parent id value
  | .insert parent index child => s.insertChild parent index child
  | .remove parent child => s.removeChild parent child
  | .set id value => s.setValue id value

def run (s : Linked) (edits : List Edit) : Linked := edits.foldl (fun s e => (s.apply e).2) s

/-- No operation generates an id that is in use. -/
def AllFresh (s : Linked) : List Edit → Prop
  | [] => True
  | e :: edits => e.IsFresh s.document ∧ AllFresh (s.apply e).2 edits

/-! ## Stored parents and lists of children -/

variable {d d' : Document} {s : Linked} {p c x : NodeId} {index : Nat}

@[simp] theorem of_document (d : Document) : (of d).document = d := rfl

@[simp] theorem of_parents (d : Document) : (of d).parents = d.parent? := rfl

/-- An answer of a document, with its parents stored. -/
def answer (d : Document) : Except DocumentError Document → Except DocumentError Unit × Linked
  | .ok d' => (.ok (), of d')
  | .error e => (.error e, of d)

theorem meets_of (d : Document) (fuel : Nat) :
    (of d).meets x (fuel + 1) c = (x == c || (d.parentChain fuel c).contains x) := by
  induction fuel generalizing c with
  | zero =>
    by_cases hc : c = x
    · simp [meets, hc]
    · cases hp : d.parent? c <;> simp [meets, hc, hp, Document.parentChain, Ne.symm hc]
  | succ fuel ih =>
    rw [meets, Document.parentChain, of_parents]
    by_cases hc : c = x
    · simp [hc]
    · rw [if_neg hc]
      cases d.parent? c with
      | none => simp [Ne.symm hc]
      | some p => simp only [ih, List.contains_cons, beq_false_of_ne (Ne.symm hc), Bool.false_or]

theorem isSelfOrAncestor_of (d : Document) :
    (of d).isSelfOrAncestor x c = d.isSelfOrAncestor x c := meets_of d d.size

theorem attach_of_insertChild (hd : d.Tidy) (h : d.insertChild p index c = .ok d')
    (parents : NodeId → Option NodeId) (hParents : parents = Function.update d.parent? c none) :
    attach ⟨d.detach c, parents⟩ p index c = (.ok (), of d') := by
  have hNew : Function.update parents c (some p) = d'.parent? := by
    funext x
    rw [hd.parent?_insert h, hParents]
    by_cases hx : x = c <;> simp [hx]
  obtain ⟨⟨n, hn⟩, -, hSame⟩ := Document.insertChild_eq_ok h
  have hFound : (d.detach c).node? p = some (n.without c) := by
    rw [hd.node?_detach, hn, Option.map_some]
  rw [attach]
  simp only [Document.find_eq_ok.mpr hFound, hNew]
  rw [of, hSame]

/-- Where the checks have passed, the changes are made one by one. -/
theorem insertChild_of_ok (hd : d.Tidy) (h : d.insertChild p index c = .ok d') :
    (of d).insertChild p index c = (.ok (), of d') := by
  obtain ⟨hp, hc, -⟩ := (hd.insertChild_eq_ok_iff index).mp ⟨d', h⟩
  obtain ⟨n, hn⟩ := Document.contains_iff.mp hp
  obtain ⟨m, hm⟩ := Document.contains_iff.mp hc
  obtain ⟨-, hNot, -⟩ := Document.insertChild_eq_ok h
  have hAttach := attach_of_insertChild hd h
  rw [insertChild]
  simp only [of_document, of_parents, Document.find_eq_ok.mpr hn, Document.find_eq_ok.mpr hm,
    isSelfOrAncestor_of, hNot, Bool.false_eq_true, if_false]
  cases hOld : d.parent? c with
  | none =>
    rw [Document.detach, hOld] at hAttach
    exact hAttach _ (by rw [← hOld, Function.update_eq_self])
  | some old =>
    obtain ⟨o, ho, -⟩ := hd.parent?_eq_some_iff.mp hOld
    rw [Document.detach, hOld] at hAttach
    simp only [Document.find_eq_ok.mpr ho]
    exact hAttach _ rfl

theorem insertChild_of (hd : d.Tidy) :
    (of d).insertChild p index c = answer d (d.insertChild p index c) := by
  cases h : d.insertChild p index c with
  | ok d' => exact insertChild_of_ok hd h
  | error e =>
    rw [Document.insertChild] at h
    rw [insertChild]
    simp only [of_document, isSelfOrAncestor_of]
    cases hp : d.find p with
    | error e' =>
      rw [hp] at h
      cases h
      rfl
    | ok n =>
      cases hc : d.find c with
      | error e' =>
        rw [hp, hc] at h
        cases h
        rfl
      | ok m =>
        simp only [hp, hc, bind, Except.bind] at h
        split at h
        · rename_i hAbove
          cases h
          exact if_pos hAbove
        · cases h

theorem removeChild_of (hd : d.Tidy) :
    (of d).removeChild p c = answer d (d.removeChild p c) := by
  rw [removeChild, Document.removeChild]
  simp only [of_document, of_parents]
  cases hp : d.find p with
  | error e => rfl
  | ok n =>
    have hn := Document.find_eq_ok.mp hp
    simp only [bind, Except.bind]
    by_cases hc : c ∈ n.children
    · have hParent := hd.parent?_eq_some_iff.mpr ⟨n, hn, hc⟩
      have hDetach : d.update p (·.without c) = d.detach c := by rw [Document.detach, hParent]
      have hLess : (n.without c).children.length ≠ n.children.length := by
        intro hLength
        have hSame := (Document.sublist_without n c).eq_of_length hLength
        rw [← hSame] at hc
        simp [Node.without] at hc
      have hNew : Function.update d.parent? c none = (d.detach c).parent? := by
        funext x
        rw [hd.parent?_detach, Function.update_apply]
      rw [if_neg hLess, if_pos (List.contains_iff_mem.mpr hc), hDetach, hNew]
      rfl
    · -- The filter has run over the children, but has left them as they were.
      have hSame : n.without c = n := by
        rw [Node.without, List.filter_eq_self.mpr]
        intro y hy
        rw [bne_iff_ne]
        rintro rfl
        exact hc hy
      rw [hSame, if_pos rfl, if_neg (by simpa using hc),
        hd.update_eq_self (f := (·.without c)) hn hSame]
      rfl

theorem insertChild_append (hd : d.Tidy) (index : Nat) {id : NodeId} (hNew : d.contains id = false)
    (hp : d.contains p = true) (value : String) :
    ∃ d', (d.append id value).insertChild p index id = .ok d' := by
  have hd' := hd.append hNew value
  obtain ⟨n, hn⟩ := Document.contains_iff.mp hp
  have hNone : d.node? id = none := by
    rw [← Option.not_isSome_iff_eq_none, Option.isSome_iff_exists, ← Document.contains_iff, hNew]
    exact Bool.false_ne_true
  have hLeaf : ∀ y, ¬ (d.append id value).HasChild id y := by
    rintro y ⟨m, hm, hy⟩
    rw [Document.node?_append, hNone, Option.none_or, if_pos rfl] at hm
    cases hm
    cases hy
  refine (hd'.insertChild_eq_ok_iff index).mpr ⟨?_, ?_, ?_⟩
  · rw [Document.contains_iff]
    exact ⟨n, by rw [Document.node?_append, hn, Option.some_or]⟩
  · rw [Document.contains_iff]
    exact ⟨_, by rw [Document.node?_append, hNone, Option.none_or, if_pos rfl]⟩
  · intro hAbove
    rcases ReflTransGen.cases_head hAbove with rfl | ⟨y, hy, -⟩
    · rw [hp] at hNew
      cases hNew
    · exact hLeaf y hy

theorem addChild_of (hd : d.Tidy) (id : NodeId) (value : String) :
    (of d).addChild p id value = answer d (d.addChild p id value) := by
  rw [addChild, Document.addChild]
  by_cases hNew : d.contains id = true
  · rw [if_pos hNew]
    exact if_pos hNew
  · rw [if_neg hNew]
    refine (if_neg hNew).trans ?_
    rw [Bool.not_eq_true] at hNew
    rw [of_document]
    cases hp : d.find p with
    | error e => rfl
    | ok n =>
      have hContains := Document.contains_iff.mpr ⟨n, Document.find_eq_ok.mp hp⟩
      -- The new node is in the document before its place is looked for, but that does not fail.
      obtain ⟨d', hd'⟩ := insertChild_append hd n.children.length hNew hContains value
      have hParents : d.parent? = (d.append id value).parent? := by
        funext x
        rw [Document.parent?_append]
      have hInsert := insertChild_of_ok (hd.append hNew value) hd'
      simp only [bind, Except.bind, hd', answer, of_parents]
      rwa [of, ← hParents] at hInsert

theorem setValue_of (id : NodeId) (value : String) :
    (of d).setValue id value = answer d (d.setValue id value) := by
  rw [setValue, Document.setValue]
  simp only [of_document]
  cases hid : d.find id with
  | error e => rfl
  | ok n =>
    have hParents : (d.update id fun n => { n with value }).parent? = d.parent? := by
      funext x
      exact Document.parent?_setValue id value
    simp only [bind, Except.bind, answer]
    rw [of, of]
    congr 2
    exact hParents.symm

/-- An operation in single steps does what it does at once. -/
theorem apply_of (hd : d.Tidy) (e : Edit) : (of d).apply e = answer d (d.attempt e) := by
  cases e with
  | create id value =>
    have hParents : (d.createNode id value).parent? = d.parent? := by
      funext x
      exact Document.parent?_append id value
    rw [apply, Document.attempt, answer, of, of, hParents]
  | add parent id value => exact addChild_of hd id value
  | insert parent index child => exact insertChild_of hd
  | remove parent child => exact removeChild_of hd
  | set id value => exact setValue_of id value

/-! ## Runs -/

theorem tidy_attempt (hd : d.Tidy) {e : Edit} (hFresh : e.IsFresh d)
    (h : d.attempt e = .ok d') : d'.Tidy := by
  cases e with
  | create id value =>
    cases h
    exact (hd.append hFresh value).bump
  | add parent id value => exact hd.addChild h
  | insert parent index child => exact hd.insertChild h
  | remove parent child => exact hd.removeChild h
  | set id value => exact hd.setValue h

theorem apply_of_edit (hd : d.Tidy) (e : Edit) : ((of d).apply e).2 = of (d.edit e) := by
  rw [apply_of hd, Document.edit]
  cases d.attempt e <;> rfl

theorem tidy_edit (hd : d.Tidy) {e : Edit} (hFresh : e.IsFresh d) : (d.edit e).Tidy := by
  rw [Document.edit]
  cases h : d.attempt e with
  | error err => exact hd
  | ok d' => exact tidy_attempt hd hFresh h

theorem run_of (hd : d.Tidy) {edits : List Edit} (hFresh : (of d).AllFresh edits) :
    (of d).run edits = of (d.editAll edits) ∧ (d.editAll edits).Tidy := by
  induction edits generalizing d with
  | nil => exact ⟨rfl, hd⟩
  | cons e edits ih =>
    obtain ⟨hFirst, hMore⟩ := hFresh
    rw [apply_of_edit hd] at hMore
    obtain ⟨hRun, hTidy⟩ := ih (tidy_edit hd hFirst) hMore
    refine ⟨?_, hTidy⟩
    rw [run, List.foldl_cons, apply_of_edit hd]
    exact hRun

/-- An operation keeps all nodes and raises the version by one. -/
theorem attempt_frame {e : Edit} (h : d.attempt e = .ok d') :
    d.nodes.map Node.id ⊆ d'.nodes.map Node.id ∧ d'.version = d.version + 1 := by
  cases e with
  | create id value =>
    cases h
    exact ⟨by simp [Document.createNode, Document.bump, Document.append], rfl⟩
  | add parent id value =>
    obtain ⟨n, hInsert⟩ := Document.addChild_eq_ok h
    obtain ⟨-, hIds, hVersion⟩ := Document.insert_frame hInsert
    rw [hIds]
    exact ⟨by simp [Document.append], hVersion⟩
  | insert parent index child =>
    obtain ⟨-, hIds, hVersion⟩ := Document.insert_frame h
    rw [hIds]
    exact ⟨List.Subset.refl _, hVersion⟩
  | remove parent child =>
    obtain rfl := Document.removeChild_eq_ok h
    have hIds := Document.ids_update (d := d) (f := (·.without child)) (fun _ => rfl) parent
    exact ⟨hIds.symm ▸ List.Subset.refl _, rfl⟩
  | set id value =>
    obtain rfl := Document.setValue_eq_ok h
    have hIds := Document.ids_update (d := d) (f := fun n => { n with value }) (fun _ => rfl) id
    exact ⟨hIds.symm ▸ List.Subset.refl _, rfl⟩

theorem contains_edit (hx : d.contains x = true) (e : Edit) : (d.edit e).contains x = true := by
  rw [Document.edit]
  cases h : d.attempt e with
  | error err => exact hx
  | ok d' =>
    rw [Document.contains_iff_mem] at hx ⊢
    exact (attempt_frame h).1 hx

theorem contains_editAll (hx : d.contains x = true) (edits : List Edit) :
    (d.editAll edits).contains x = true := by
  induction edits generalizing d with
  | nil => exact hx
  | cons e edits ih => exact ih (contains_edit hx e)

/-! ## What always holds -/

/-- Adds lines, each of which is given by its parent, its id and its text. -/
def adds (lines : List (NodeId × NodeId × String)) : List Edit :=
  lines.map fun l => .add l.1 l.2.1 l.2.2

/-- New documents, and outlines: these are made by adding their lines one after the other. -/
inductive IsStart : Linked → Prop
  | ofRoot (id : NodeId) (value : String) : IsStart ⟨.ofRoot id value, fun _ => none⟩
  | ofOutline {supply supply' : IdSupply} {source : List Char} {d : Document}
      {lines : List (NodeId × NodeId × String)} {s : Linked} :
      Document.ofOutline supply source = .ok (d, supply') →
      run ⟨.empty, fun _ => none⟩ (adds lines) = s →
      d = { s.document with version := 0 } → IsStart ⟨d, s.parents⟩

/-- One node is another one or above it by the stored parents. -/
def Above (s : Linked) : NodeId → NodeId → Prop :=
  ReflTransGen fun p c => s.parents c = some p

/-- The lists of children, the stored parents and the ids of a document fit together. -/
structure InOrder (s : Linked) : Prop where
  /-- A node stands once among the children of its parent, and in no other list. -/
  count : ∀ p n c, s.document.node? p = some n →
    n.children.count c = if s.parents c = some p then 1 else 0
  parents : ∀ p c, s.parents c = some p → s.document.contains p = true
  keyed : (s.document.nodes.map Node.id).Nodup ∧
    ∀ n ∈ s.document.nodes, s.document.node? n.id = some n
  acyclic : ∀ x, ¬ TransGen (fun p c => s.parents c = some p) x x
  /-- Going up ends, and all that is met on the way up is above the node. -/
  ends : ∀ c, (Option.bind · s.parents)^[s.document.size + 1] (some c) = none
  above : ∀ x c, s.isSelfOrAncestor x c = true ↔ s.Above x c
  /-- Writing the outline ends: deeper levels are empty. -/
  outline : ∀ fuel level x, s.document.size ≤ fuel →
    s.document.outlineBelow fuel level x = s.document.outlineBelow s.document.size level x

/-- One document is another one after a node has been put below a parent. -/
structure Moved (parent : NodeId) (index : Nat) (child : NodeId) (s s' : Linked) : Prop where
  node? : ∀ x, s'.document.node? x = (s.document.node? x).map (·.afterInsert parent index child)
  parents : s'.parents = Function.update s.parents child (some parent)
  root : s'.document.root = s.document.root
  ids : s'.document.nodes.map Node.id = s.document.nodes.map Node.id

/-- What an operation does to a document and its parents. -/
structure Obeys (s : Linked) (e : Edit) : Prop where
  failure : ∀ error, (s.apply e).1 = .error error → (s.apply e).2 = s
  success : (s.apply e).1 = .ok () → (s.apply e).2.document.version = s.document.version + 1
  kept : ∀ x, s.document.contains x = true → (s.apply e).2.document.contains x = true
  accepted : ∀ p i c, e = .insert p i c → ((s.apply e).1 = .ok () ↔
    s.document.contains p = true ∧ s.document.contains c = true ∧ ¬ s.Above c p)
  inserted : ∀ p i c, e = .insert p i c → (s.apply e).1 = .ok () → Moved p i c s (s.apply e).2

theorem hasChild_eq (hd : d.Tidy) : (fun p c => (of d).parents c = some p) = d.HasChild := by
  funext p c
  exact propext hd.parent?_eq_some_iff

theorem inOrder_of (hd : d.Tidy) : (of d).InOrder where
  count _ _ c hn := hd.count_children hn c
  parents p c h := by
    obtain ⟨n, hn, -⟩ := hd.parent?_eq_some_iff.mp h
    exact Document.contains_iff.mpr ⟨n, hn⟩
  keyed := ⟨hd.ids, fun n hn => Document.node?_of_mem hd.ids hn⟩
  acyclic := by
    rw [hasChild_eq hd]
    exact hd.forest.acyclic
  ends := hd.climb_eq_none
  above x c := by
    rw [isSelfOrAncestor_of, hd.isSelfOrAncestor_iff, Above, hasChild_eq hd]
  outline _ level x h := hd.outlineBelow_eq h level x

theorem moved_of (hd : d.Tidy) (h : d.insertChild p index c = .ok d') :
    Moved p index c (of d) (of d') where
  node? _ := hd.node?_insert h
  parents := by
    funext x
    rw [of_parents, hd.parent?_insert h, Function.update_apply]
    rfl
  root := (Document.insert_frame h).1
  ids := (Document.insert_frame h).2.1

theorem obeys_of (hd : d.Tidy) (e : Edit) : (of d).Obeys e := by
  have hApply := apply_of hd e
  have hEdit := apply_of_edit hd e
  refine ⟨?_, ?_, ?_, ?_, ?_⟩
  · intro error h
    rw [hApply] at h ⊢
    cases hAttempt : d.attempt e with
    | ok d' =>
      rw [hAttempt] at h
      cases h
    | error error => rfl
  · intro h
    rw [hApply] at h ⊢
    cases hAttempt : d.attempt e with
    | ok d' => exact (attempt_frame hAttempt).2
    | error error =>
      rw [hAttempt] at h
      cases h
  · intro x hx
    rw [hEdit]
    exact contains_edit hx e
  · rintro p i c rfl
    rw [hApply, Above, hasChild_eq hd, of_document, ← hd.insertChild_eq_ok_iff i]
    change (answer d (d.insertChild p i c)).1 = _ ↔ _
    cases d.insertChild p i c <;> simp [answer]
  · rintro p i c rfl h
    rw [hApply] at h ⊢
    change (answer d (d.insertChild p i c)).1 = _ at h
    change Moved p i c _ (answer d (d.insertChild p i c)).2
    cases hInsert : d.insertChild p i c with
    | ok d' => exact moved_of hd hInsert
    | error error =>
      rw [hInsert] at h
      cases h

theorem parent?_ofRoot (id : NodeId) (value : String) :
    (Document.ofRoot id value).parent? = fun _ => none := by
  funext c
  simp [Document.parent?, Document.ofRoot]

theorem allFresh_adds (s : Linked) (lines : List (NodeId × NodeId × String)) :
    s.AllFresh (adds lines) := by
  induction lines generalizing s with
  | nil => trivial
  | cons l lines ih => exact ⟨trivial, ih _⟩

theorem IsStart.eq_of (h : s.IsStart) : s = of s.document ∧ s.document.Tidy := by
  cases h with
  | ofRoot id value =>
    refine ⟨?_, Document.tidy_ofRoot id value⟩
    rw [of, parent?_ofRoot]
  | @ofOutline _ _ _ _ lines s _ hRun hSame =>
    have hRoot : (⟨.empty, fun _ => none⟩ : Linked) = of .empty := by
      rw [of, Document.empty, parent?_ofRoot]
    rw [hRoot] at hRun
    obtain ⟨hOf, hTidy⟩ := run_of (Document.tidy_ofRoot "root" "") (allFresh_adds _ lines)
    obtain rfl := hRun.symm.trans hOf
    subst hSame
    exact ⟨rfl, hTidy.ids, hTidy.forest.nodup, hTidy.forest.parent_unique, hTidy.forest.acyclic⟩

/-- Each line of an outline that is read is added below another node. -/
theorem exists_lines_readLines {texts : List (List Char)} {draft draft' : Document.Draft}
    {number : Nat} (h : Document.Draft.readLines number texts draft = .ok draft') :
    ∃ lines : List (NodeId × NodeId × String),
      draft'.document = draft.document.editAll (adds lines) := by
  induction texts generalizing draft number with
  | nil =>
    cases h
    exact ⟨[], rfl⟩
  | cons text texts ih =>
    rw [Document.Draft.readLines] at h
    split at h
    · exact ih h
    · split at h
      · rename_i next hNext
        obtain ⟨p, id, value, hAdd⟩ := Document.addChild_of_readLine hNext
        obtain ⟨lines, hLines⟩ := ih h
        refine ⟨(p, id, value) :: lines, ?_⟩
        have hEdit : draft.document.edit (.add p id value) = next.document := by
          rw [Document.edit, Document.attempt, hAdd]
          rfl
        rw [hLines, ← hEdit]
        rfl
      · cases h

/-- Every outline that can be read is a start. -/
theorem isStart_ofOutline {supply supply' : IdSupply} {source : List Char}
    (h : Document.ofOutline supply source = .ok (d, supply')) : (of d).IsStart := by
  have hOutline := h
  rw [Document.ofOutline] at h
  split at h
  · rename_i draft hDraft
    cases h
    obtain ⟨lines, hLines⟩ := exists_lines_readLines hDraft
    have hRun : run ⟨.empty, fun _ => none⟩ (adds lines) = of draft.document := by
      obtain ⟨hRun, -⟩ := run_of (Document.tidy_ofRoot "root" "") (allFresh_adds _ lines)
      rw [of, parent?_ofRoot] at hRun
      rw [hLines]
      exact hRun
    exact IsStart.ofOutline hOutline hRun rfl
  · cases h

/-- Whatever operations are tried on a new document or an outline, the document stays a forest with
its parents in step, and each further operation does what it should or nothing. -/
theorem run_inOrder {s : Linked} (hStart : s.IsStart) {edits : List Edit}
    (hFresh : s.AllFresh edits) :
    (s.run edits).InOrder ∧ (∀ e, (s.run edits).Obeys e) ∧
      (∀ x, s.document.contains x = true → (s.run edits).document.contains x = true) ∧
      (s.run edits).document = s.document.editAll edits := by
  obtain ⟨hOf, hTidy⟩ := hStart.eq_of
  rw [hOf] at hFresh ⊢
  obtain ⟨hRun, hTidy'⟩ := run_of hTidy hFresh
  rw [hRun]
  exact ⟨inOrder_of hTidy', obeys_of hTidy', fun x hx => contains_editAll hx edits, rfl⟩

/-- Two nodes change places, which fails as long as one is above the other. -/
def exchange : List Edit :=
  [.create "a" "x", .add "root" "b" "y", .insert "b" 7 "a", .insert "a" 0 "b", .remove "root" "b",
    .insert "root" 0 "a", .insert "a" 0 "b"]

theorem run_inOrder_exchange :
    (run ⟨.ofRoot "root" "", fun _ => none⟩ exchange).InOrder ∧
      (run ⟨.ofRoot "root" "", fun _ => none⟩ exchange).document =
        ⟨"root", [⟨"root", "", ["a"]⟩, ⟨"a", "x", ["b"]⟩, ⟨"b", "y", []⟩], 6⟩ := by
  have hFresh : (⟨.ofRoot "root" "", fun _ => none⟩ : Linked).AllFresh exchange :=
    ⟨rfl, trivial, trivial, trivial, trivial, trivial, trivial, trivial⟩
  have h := run_inOrder (IsStart.ofRoot "root" "") hFresh
  refine ⟨h.1, ?_⟩
  rw [h.2.2.2]
  decide

end Linked

end FormulaOutline
