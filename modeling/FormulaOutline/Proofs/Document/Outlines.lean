import FormulaOutline.Proofs.Document.Linked
import Mathlib.Data.List.Nodup

/-!
# Outlines are read as they were written

The outline of a document has one line for each node below the root, first the node and then all
that is below it. A reader sees the lines one by one and keeps the nodes above the last line. When it
has read the lines of a node and of all below it, that node stands at the end of the children of its
parent, and nothing else has changed.

* `entriesBelow`: the nodes of an outline with their levels, in the order of the lines.
* `Complete`: forests whose children are nodes too, as operations make them.
* `Restores`: what becomes of a draft that reads some lines.
* `restores_below`: the lines of a node and of all below it put the node back in its place.
* `Linked.ofOutline_toOutline`: what is read from the outline of a document is the document.
-/

namespace FormulaOutline

open Relation

/-- A node after some children have been put behind those of a parent. -/
def Node.adopt (n : Node) (parent : NodeId) (children : List NodeId) : Node :=
  if n.id = parent then { n with children := n.children ++ children } else n

theorem Node.adopt_of_ne {n : Node} {parent : NodeId} (h : n.id ≠ parent) (children : List NodeId) :
    n.adopt parent children = n := if_neg h

@[simp] theorem Node.id_adopt (n : Node) (parent : NodeId) (children : List NodeId) :
    (n.adopt parent children).id = n.id := by
  rw [adopt]
  split <;> rfl

theorem Node.adopt_adopt (n : Node) (parent : NodeId) (children more : List NodeId) :
    (n.adopt parent children).adopt parent more = n.adopt parent (children ++ more) := by
  by_cases h : n.id = parent <;> simp [adopt, h]

namespace Text

/-- Lines that are ended by newlines are the lines of the whole text. -/
theorem lines_flatMap {ls : List (List Char)}
    (h : ∀ l ∈ ls, '\n' ∉ l ∧ l.getLast? ≠ some '\r') :
    lines (ls.flatMap (· ++ ['\n'])) = ls := by
  have hSplit : (ls.flatMap (· ++ ['\n'])).splitOn '\n' = ls ++ [[]] := by
    induction ls with
    | nil => rfl
    | cons l ls ih =>
      rw [List.forall_mem_cons] at h
      have hNot : ∀ c ∈ l, (c == '\n') = false := by
        intro c hc
        rw [beq_eq_false_iff_ne]
        rintro rfl
        exact h.1.1 hc
      rw [List.flatMap_cons, List.append_assoc, List.singleton_append, List.splitOn,
        List.splitOnP_append_cons_of_forall_mem hNot _ (beq_self_eq_true _)]
      exact congrArg (l :: ·) (ih h.2)
  have hStrip : ls.map stripReturn = ls := by
    refine (List.map_congr_left fun l hl => ?_).trans (List.map_id ls)
    exact if_neg (h l hl).2
  simp [lines, hSplit, hStrip]

end Text

namespace Document

variable {d d' : Document} {p c x y : NodeId} {n : Node} {level fuel : Nat}

/-! ## Lines -/

/-- The nodes of an outline with their levels, in the order of the lines. -/
def entriesBelow (d : Document) : (fuel level : Nat) → NodeId → List (Nat × Node)
  | 0, _, _ => []
  | fuel + 1, level, id =>
      match d.node? id with
      | none => []
      | some n => (level, n) :: n.children.flatMap (entriesBelow d fuel (level + 1))

/-- The line of a node without its newline. -/
def lineOf (e : Nat × Node) : List Char :=
  List.replicate (2 * e.1) ' ' ++
    '-' :: ' ' :: '[' :: (e.2.id.toList ++ ']' :: ' ' :: e.2.value.toList)

theorem toList_outlineLine (level : Nat) (n : Node) :
    (outlineLine level n).toList = lineOf (level, n) ++ ['\n'] := by
  simp [outlineLine, lineOf]

theorem toList_outlineBelow (d : Document) (fuel level : Nat) (x : NodeId) :
    (d.outlineBelow fuel level x).toList =
      ((d.entriesBelow fuel level x).map lineOf).flatMap (· ++ ['\n']) := by
  induction fuel generalizing level x with
  | zero => rfl
  | succ fuel ih =>
    rw [outlineBelow, entriesBelow]
    cases d.node? x with
    | none => rfl
    | some n =>
      simp only [String.toList_append, toList_outlineLine, String.toList_join, List.map_cons,
        List.flatMap_cons, List.map_flatMap, List.flatMap_assoc, List.flatMap_map, ih]

theorem splitId_bracketed {id : NodeId} (hId : Formula.isTranscludable id = true)
    (after : List Char) :
    splitId ('[' :: (id.toList ++ ']' :: after)) = (some id, dropSpace after) := by
  have hInside : ∀ c ∈ id.toList, (c != ']') = true := by
    intro c hc
    rw [Formula.isTranscludable, Bool.and_eq_true, List.all_eq_true] at hId
    rw [bne_iff_ne]
    rintro rfl
    exact absurd (hId.2 _ hc) (by decide)
  rw [splitId]
  simp [List.takeWhile_append_of_pos hInside, List.dropWhile_append_of_pos hInside, hId]

/-- The line of a node is read as the node at its level. -/
theorem Draft.readLine_lineOf {draft : Draft} (number : Nat) (hPath : level < draft.path.length)
    (hId : Formula.isTranscludable n.id = true) (hNew : draft.document.contains n.id = false) :
    draft.readLine number (lineOf (level, n)) = draft.add (level + 1) n.id n.value := by
  have hSpaces : ∀ c ∈ List.replicate (2 * level) ' ', (c == ' ') = true := by
    intro c hc
    rw [List.eq_of_mem_replicate hc]
    rfl
  have hEven : 2 * level % 2 = 0 := Nat.mul_mod_right 2 level
  have hHalf : 2 * level / 2 = level := Nat.mul_div_cancel_left level Nat.two_pos
  rw [readLine, lineOf]
  simp only [List.takeWhile_append_of_pos hSpaces, List.dropWhile_append_of_pos hSpaces]
  simp [hEven, hHalf, Nat.not_lt.mpr hPath, afterMarker?, splitId_bracketed hId, dropSpace, hNew]

theorem isBlankText_lineOf (e : Nat × Node) : Text.isBlankText (lineOf e) = false := by
  rw [Text.isBlankText, List.all_eq_false]
  exact ⟨'-', by simp [lineOf], by decide⟩

/-! ## Complete forests -/

/-- A forest whose children are nodes of the document. -/
structure Complete (d : Document) : Prop where
  tidy : d.Tidy
  children : ∀ p c, d.HasChild p c → d.contains c = true

theorem Complete.of_hasChild (hd : d.Complete) (hTidy : d'.Tidy)
    (hIds : d.nodes.map Node.id ⊆ d'.nodes.map Node.id)
    (hChild : ∀ p c, d'.HasChild p c → d.HasChild p c ∨ d'.contains c = true) : d'.Complete where
  tidy := hTidy
  children := by
    intro p c h
    rcases hChild p c h with h | h
    · have hc := hd.children p c h
      rw [contains_iff_mem] at hc ⊢
      exact hIds hc
    · exact h

theorem complete_ofRoot (id : NodeId) (value : String) : (ofRoot id value).Complete where
  tidy := tidy_ofRoot id value
  children := by
    rintro p c ⟨n, hn, hc⟩
    obtain rfl := List.mem_singleton.mp (List.mem_of_find?_eq_some hn)
    cases hc

theorem hasChild_append (id : NodeId) (value : String) (h : (d.append id value).HasChild p c) :
    d.HasChild p c := by
  obtain ⟨n, hn, hc⟩ := h
  rw [node?_append] at hn
  cases hp : d.node? p with
  | some m =>
    rw [hp, Option.some_or] at hn
    exact ⟨n, hp.trans hn, hc⟩
  | none =>
    rw [hp, Option.none_or] at hn
    split at hn
    · cases hn
      cases hc
    · cases hn

theorem hasChild_insert_of_ok (hd : d.Tidy) {child : NodeId} {index : Nat}
    (h : d.insertChild p index child = .ok d') {q : NodeId} (hChild : d'.HasChild q c) :
    d.HasChild q c ∨ d'.contains c = true := by
  obtain ⟨-, hc, -⟩ := (hd.insertChild_eq_ok_iff index).mp ⟨d', h⟩
  obtain ⟨hParent, -, hSame⟩ := insertChild_eq_ok h
  rw [contains_iff_mem, ← (insert_frame h).2.1, ← contains_iff_mem] at hc
  subst hSame
  rcases (hd.hasChild_insert child index hParent).mp hChild with ⟨-, rfl⟩ | ⟨hOld, -⟩
  · exact Or.inr hc
  · exact Or.inl hOld

theorem Complete.attempt (hd : d.Complete) {e : Edit} (hFresh : e.IsFresh d)
    (h : d.attempt e = .ok d') : d'.Complete := by
  refine hd.of_hasChild (Linked.tidy_attempt hd.tidy hFresh h) (Linked.attempt_frame h).1 ?_
  intro p c hChild
  cases e with
  | create id value =>
    cases h
    exact Or.inl (hasChild_append id value hChild)
  | add parent id value =>
    have hNew : d.contains id = false := by
      cases hId : d.contains id with
      | false => rfl
      | true =>
        rw [Document.attempt, addChild, hId] at h
        cases h
    obtain ⟨k, hInsert⟩ := addChild_eq_ok h
    rcases hasChild_insert_of_ok (hd.tidy.append hNew value) hInsert hChild with hOld | hc
    · exact Or.inl (hasChild_append id value hOld)
    · exact Or.inr hc
  | insert parent index child => exact hasChild_insert_of_ok hd.tidy h hChild
  | remove parent child =>
    obtain rfl := removeChild_eq_ok h
    refine Or.inl ?_
    obtain ⟨n, hn, hc⟩ := (hasChild_update (f := (·.without child)) fun _ => rfl).mp hChild
    refine ⟨n, hn, ?_⟩
    split at hc
    · exact (sublist_without n child).subset hc
    · exact hc
  | set id value =>
    obtain rfl := setValue_eq_ok h
    refine Or.inl ?_
    obtain ⟨n, hn, hc⟩ :=
      (hasChild_update (f := fun n => { n with value }) fun _ => rfl).mp hChild
    refine ⟨n, hn, ?_⟩
    split at hc <;> exact hc

/-- A new line is a node at the end of the children of its parent. -/
theorem Complete.addChild (hd : d.Complete) (hNew : d.contains x = false)
    (hp : d.contains p = true) (value : String) :
    ∃ d', d.addChild p x value = .ok d' ∧ d'.Complete ∧ d'.root = d.root ∧
      ∀ y, d'.node? y =
        if y = x then some ⟨x, value, []⟩ else (d.node? y).map (·.adopt p [x]) := by
  obtain ⟨n, hn⟩ := contains_iff.mp hp
  obtain ⟨d', hInsert⟩ := Linked.insertChild_append hd.tidy n.children.length hNew hp value
  have hAdd : d.addChild p x value = .ok d' := by
    rw [Document.addChild, hNew, find_eq_ok.mpr hn]
    exact hInsert
  have hNone : d.node? x = none := by
    rw [← Option.not_isSome_iff_eq_none, Option.isSome_iff_exists, ← contains_iff, hNew]
    exact Bool.false_ne_true
  have hxp : x ≠ p := by
    rintro rfl
    rw [hp] at hNew
    cases hNew
  refine ⟨d', hAdd, hd.attempt (e := .add p x value) trivial hAdd, (insert_frame hInsert).1, ?_⟩
  intro y
  rw [(hd.tidy.append hNew value).node?_insert hInsert, node?_append]
  split
  · rename_i hy
    subst hy
    simp [hNone, Node.afterInsert, hxp]
  · rename_i hy
    rw [if_neg (Ne.symm hy), Option.or_none]
    refine Option.map_congr fun m hm => ?_
    have hOthers : m.children.filter (· != x) = m.children := by
      refine List.filter_eq_self.mpr fun c hc => ?_
      rw [bne_iff_ne]
      rintro rfl
      rw [hd.children y c ⟨m, hm, hc⟩] at hNew
      cases hNew
    rw [Node.afterInsert, Node.adopt, hOthers]
    split
    · rename_i hm'
      obtain rfl : m = n := by
        rw [id_of_node? hm] at hm'
        exact Option.some.inj (hm.symm.trans (hm' ▸ hn))
      simp
    · rfl

/-! ## The nodes of an outline -/

/-- The fuel suffices for all levels below a node. -/
def Suffices (d : Document) : (fuel : Nat) → NodeId → Prop
  | 0, x => d.node? x = none
  | fuel + 1, x => ∀ c, d.HasChild x c → d.Suffices fuel c

theorem Tidy.suffices_of_room (hd : d.Tidy) {path : List NodeId}
    (hPath : ∀ y ∈ path, TransGen d.HasChild y x) (h : d.room path ≤ fuel) :
    d.Suffices fuel x := by
  induction fuel generalizing path x with
  | zero =>
    rw [Suffices]
    by_contra hx
    obtain ⟨n, hn⟩ := Option.ne_none_iff_exists'.mp hx
    have hLess := room_cons_lt hn fun hMem => hd.forest.acyclic x (hPath x hMem)
    omega
  | succ fuel ih =>
    intro c hChild
    obtain ⟨n, hn, -⟩ := id hChild
    have hLess := room_cons_lt hn fun hMem => hd.forest.acyclic x (hPath x hMem)
    have hBelow : ∀ y ∈ x :: path, TransGen d.HasChild y c := by
      intro y hy
      rcases List.mem_cons.mp hy with rfl | hy
      · exact .single hChild
      · exact (hPath y hy).tail hChild
    exact ih hBelow (by omega)

theorem Tidy.suffices (hd : d.Tidy) (x : NodeId) : d.Suffices d.size x := by
  have hNone : ∀ y ∈ ([] : List NodeId), TransGen d.HasChild y x := by simp
  exact hd.suffices_of_room hNone (d.room_le [])

/-- The ids of the lines of an outline. -/
def idsOf (entries : List (Nat × Node)) : List NodeId := entries.map (·.2.id)

theorem idsOf_flatMap (children : List NodeId) (f : NodeId → List (Nat × Node)) :
    idsOf (children.flatMap f) = children.flatMap fun c => idsOf (f c) := List.map_flatMap ..

theorem Complete.mem_idsOf_entriesBelow (hd : d.Complete) (h : d.Suffices fuel x)
    (hx : d.contains x = true) :
    y ∈ idsOf (d.entriesBelow fuel level x) ↔ ReflTransGen d.HasChild x y := by
  obtain ⟨n, hn⟩ := contains_iff.mp hx
  induction fuel generalizing x level n with
  | zero =>
    rw [Suffices, hn] at h
    cases h
  | succ fuel ih =>
    have hBelow : ∀ c ∈ n.children,
        (y ∈ idsOf (d.entriesBelow fuel (level + 1) c) ↔ ReflTransGen d.HasChild c y) := by
      intro c hc
      have hContains := hd.children x c ⟨n, hn, hc⟩
      obtain ⟨m, hm⟩ := contains_iff.mp hContains
      exact ih (h c ⟨n, hn, hc⟩) hContains m hm
    rw [entriesBelow, hn]
    change y ∈ n.id :: idsOf (n.children.flatMap _) ↔ _
    rw [List.mem_cons, idsOf_flatMap, List.mem_flatMap, id_of_node? hn]
    constructor
    · rintro (rfl | ⟨c, hc, hy⟩)
      · exact .refl
      · exact .head ⟨n, hn, hc⟩ ((hBelow c hc).mp hy)
    · intro hy
      rcases ReflTransGen.cases_head hy with rfl | ⟨c, ⟨m, hm, hc⟩, hcy⟩
      · exact Or.inl rfl
      · obtain rfl : n = m := Option.some.inj (hn.symm.trans hm)
        exact Or.inr ⟨c, hc, (hBelow c hc).mpr hcy⟩

/-- Below two children of a node there is no node in common. -/
theorem IsForest.not_below_both (hd : d.IsForest) {c' : NodeId} (hc : d.HasChild p c)
    (hc' : d.HasChild p c') (hne : c ≠ c') (h : ReflTransGen d.HasChild c y)
    (h' : ReflTransGen d.HasChild c' y) : False := by
  -- Of two nodes above a third one, one is above the other, hence above the common parent.
  have hAbove : ∀ u v, d.HasChild p u → d.HasChild p v → u ≠ v →
      ¬ ReflTransGen d.HasChild u v := by
    intro u v hu hv huv hPath
    rcases ReflTransGen.cases_tail hPath with heq | ⟨q, hPath, hq⟩
    · exact huv heq.symm
    · obtain rfl := hd.parent_unique q p v hq hv
      exact hd.acyclic q (TransGen.head' hu hPath)
  have hUnique : Relator.RightUnique (Function.swap d.HasChild) :=
    fun z u v hu hv => hd.parent_unique u v z hu hv
  rcases ReflTransGen.total_of_right_unique hUnique (reflTransGen_swap.mpr h)
    (reflTransGen_swap.mpr h') with hPath | hPath
  · exact hAbove c' c hc' hc hne.symm (reflTransGen_swap.mp hPath)
  · exact hAbove c c' hc hc' hne (reflTransGen_swap.mp hPath)

theorem Complete.nodup_idsOf_children (hd : d.Complete) (hn : d.node? x = some n)
    (h : ∀ c ∈ n.children, d.Suffices fuel c)
    (hEach : ∀ c ∈ n.children, (idsOf (d.entriesBelow fuel level c)).Nodup) :
    (idsOf (n.children.flatMap (d.entriesBelow fuel level))).Nodup := by
  rw [idsOf_flatMap, List.nodup_flatMap]
  refine ⟨hEach, ?_⟩
  refine (hd.tidy.forest.nodup x n hn).pairwise_of_forall_ne fun c hc c' hc' hne => ?_
  intro y hy hy'
  have hMem : ∀ c ∈ n.children, y ∈ idsOf (d.entriesBelow fuel level c) →
      ReflTransGen d.HasChild c y := fun c hc =>
    (hd.mem_idsOf_entriesBelow (h c hc) (hd.children x c ⟨n, hn, hc⟩)).mp
  exact hd.tidy.forest.not_below_both ⟨n, hn, hc⟩ ⟨n, hn, hc'⟩ hne (hMem c hc hy) (hMem c' hc' hy')

/-- No node has two lines. -/
theorem Complete.nodup_idsOf_entriesBelow (hd : d.Complete) (h : d.Suffices fuel x) :
    (idsOf (d.entriesBelow fuel level x)).Nodup := by
  induction fuel generalizing x level with
  | zero => exact List.nodup_nil
  | succ fuel ih =>
    rw [entriesBelow]
    cases hn : d.node? x with
    | none => exact List.nodup_nil
    | some n =>
      have hBelow : ∀ c ∈ n.children, d.Suffices fuel c := fun c hc => h c ⟨n, hn, hc⟩
      change (n.id :: idsOf (n.children.flatMap _)).Nodup
      rw [List.nodup_cons, id_of_node? hn]
      refine ⟨?_, hd.nodup_idsOf_children hn hBelow fun c hc => ih (hBelow c hc)⟩
      rw [idsOf_flatMap, List.mem_flatMap]
      rintro ⟨c, hc, hx⟩
      have hPath := (hd.mem_idsOf_entriesBelow (hBelow c hc) (hd.children x c ⟨n, hn, hc⟩)).mp hx
      exact hd.tidy.forest.acyclic x (TransGen.head' ⟨n, hn, hc⟩ hPath)

/-! ## Reading the lines -/

/-- Reading some lines takes a draft to another one, whatever lines follow. -/
def Reads (entries : List (Nat × Node)) (draft draft' : Draft) : Prop :=
  ∀ number more, Draft.readLines number (entries.map lineOf ++ more) draft =
    Draft.readLines (number + entries.length) more draft'

theorem Reads.append {entries entries' : List (Nat × Node)} {draft draft' draft'' : Draft}
    (h : Reads entries draft draft') (h' : Reads entries' draft' draft'') :
    Reads (entries ++ entries') draft draft'' := by
  intro number more
  rw [List.map_append, List.append_assoc, h, h', List.length_append, Nat.add_assoc]

theorem reads_singleton {draft draft' : Draft} (hPath : level < draft.path.length)
    (hId : Formula.isTranscludable n.id = true) (hNew : draft.document.contains n.id = false)
    (h : draft.add (level + 1) n.id n.value = .ok draft') : Reads [(level, n)] draft draft' := by
  intro number more
  rw [List.map_singleton, List.singleton_append, Draft.readLines, isBlankText_lineOf,
    Draft.readLine_lineOf number hPath hId hNew, h]
  rfl

/-- A draft that has got the nodes of some lines, which puts children behind those of a parent. The
path is kept up to the level of the children. -/
structure Gains (d : Document) (level : Nat) (parent : NodeId) (children : List NodeId)
    (entries : List (Nat × Node)) (draft draft' : Draft) : Prop where
  complete : draft'.document.Complete
  root : draft'.document.root = draft.document.root
  supply : draft'.supply = draft.supply
  path : ∀ i ≤ level, draft'.path[i]? = draft.path[i]?
  node? : ∀ y, draft'.document.node? y =
    if y ∈ idsOf entries then d.node? y
    else (draft.document.node? y).map (·.adopt parent children)

/-- Some lines put children below the last node of the level above their own, together with all that
is below the children. -/
def Restores (d : Document) (level : Nat) (children : List NodeId)
    (entries : List (Nat × Node)) : Prop :=
  ∀ draft parent, draft.document.Complete → draft.path[level]? = some parent →
    draft.document.contains parent = true →
    (∀ y ∈ idsOf entries, draft.document.contains y = false) → (idsOf entries).Nodup →
    ∃ draft', Reads entries draft draft' ∧ Gains d level parent children entries draft draft'

theorem restores_nil (d : Document) (level : Nat) : d.Restores level [] [] := by
  intro draft parent hDraft _ _ _ _
  refine ⟨draft, fun _ _ => rfl, hDraft, rfl, rfl, fun _ _ => rfl, fun y => ?_⟩
  have hSame : ∀ n : Node, n.adopt parent [] = n := fun n => by simp [Node.adopt]
  simp [idsOf, hSame]

theorem contains_eq_false_iff : d.contains x = false ↔ d.node? x = none := by
  rw [← Option.not_isSome_iff_eq_none, Option.isSome_iff_exists, ← contains_iff,
    Bool.not_eq_true]

theorem Gains.contains_iff {parent : NodeId} {children : List NodeId}
    {entries : List (Nat × Node)} {draft draft' : Draft}
    (h : Gains d level parent children entries draft draft') (hy : y ∉ idsOf entries) :
    draft'.document.contains y = draft.document.contains y := by
  rw [Bool.eq_iff_iff, Document.contains_iff, Document.contains_iff, h.node?, if_neg hy]
  simp

theorem Restores.append {children children' : List NodeId} {entries entries' : List (Nat × Node)}
    (h : d.Restores level children entries) (h' : d.Restores level children' entries') :
    d.Restores level (children ++ children') (entries ++ entries') := by
  intro draft parent hDraft hPath hParent hNew hNodup
  have hIds : idsOf (entries ++ entries') = idsOf entries ++ idsOf entries' := List.map_append
  rw [hIds, List.nodup_append] at hNodup
  simp only [hIds, List.mem_append] at hNew
  obtain ⟨draft₁, hReads, hGains⟩ := h draft parent hDraft hPath hParent
    (fun y hy => hNew y (Or.inl hy)) hNodup.1
  have hOut : parent ∉ idsOf entries := fun hMem => by
    rw [hNew parent (Or.inl hMem)] at hParent
    cases hParent
  obtain ⟨draft₂, hReads', hGains'⟩ := h' draft₁ parent hGains.complete
    ((hGains.path level le_rfl).trans hPath) ((hGains.contains_iff hOut).trans hParent)
    (fun y hy => by
      rw [hGains.contains_iff fun hMem => hNodup.2.2 y hMem y hy rfl]
      exact hNew y (Or.inr hy)) hNodup.2.1
  refine ⟨draft₂, hReads.append hReads', hGains'.complete, hGains'.root.trans hGains.root,
    hGains'.supply.trans hGains.supply,
    fun i hi => (hGains'.path i hi).trans (hGains.path i hi), fun y => ?_⟩
  rw [hGains'.node?, hGains.node?, hIds]
  by_cases hy' : y ∈ idsOf entries'
  · simp [hy']
  · by_cases hy : y ∈ idsOf entries
    · have hne : y ≠ parent := fun he => hOut (he ▸ hy)
      simp only [hy', hy, if_true, if_false, List.mem_append, true_or]
      refine (Option.map_congr (g := id) fun m hm => ?_).trans (congrFun Option.map_id _)
      exact Node.adopt_of_ne ((id_of_node? hm).trans_ne hne) _
    · simp [hy, hy', Function.comp_def, Node.adopt_adopt]

theorem Draft.add_eq_ok {draft : Draft} {parent : NodeId} {value : String} {document : Document}
    (hPath : draft.path[level]? = some parent)
    (hAdd : draft.document.addChild parent x value = .ok document) :
    draft.add (level + 1) x value =
      .ok ⟨document, draft.path.take (level + 1) ++ [x], draft.supply⟩ := by
  rw [Draft.add, Nat.add_sub_cancel, hPath]
  simp only [hAdd, bind, Except.bind]

/-- A node is added below the last one that is open at the level above. -/
theorem Draft.exists_add {draft : Draft} {parent : NodeId} {value : String} {document : Document}
    (hPath : draft.path[level]? = some parent)
    (hAdd : draft.document.addChild parent x value = .ok document) :
    ∃ draft', draft.add (level + 1) x value = .ok draft' ∧ draft'.document = document ∧
      draft'.supply = draft.supply ∧ (∀ i ≤ level, draft'.path[i]? = draft.path[i]?) ∧
      draft'.path[level + 1]? = some x := by
  obtain ⟨hLength, -⟩ := List.getElem?_eq_some_iff.mp hPath
  have hTake : (draft.path.take (level + 1)).length = level + 1 := by
    rw [List.length_take]
    omega
  refine ⟨_, Draft.add_eq_ok hPath hAdd, rfl, rfl, ?_, ?_⟩
  · intro i hi
    rw [List.getElem?_append_left (by omega), List.getElem?_take_of_lt (by omega)]
  · rw [List.getElem?_append_right (by omega), hTake, Nat.sub_self]
    rfl

/-- The line of a node and those of all below it. -/
theorem Restores.node {entries : List (Nat × Node)} (hn : d.node? x = some n)
    (hId : Formula.isTranscludable x = true) (h : d.Restores (level + 1) n.children entries) :
    d.Restores level [x] ((level, n) :: entries) := by
  intro draft parent hDraft hPath hParent hNew hNodup
  obtain rfl := id_of_node? hn
  have hIds : idsOf ((level, n) :: entries) = n.id :: idsOf entries := rfl
  rw [hIds, List.nodup_cons] at hNodup
  rw [hIds, List.forall_mem_cons] at hNew
  obtain ⟨hLength, -⟩ := List.getElem?_eq_some_iff.mp hPath
  obtain ⟨document, hAdd, hComplete, hRoot, hNode⟩ := hDraft.addChild hNew.1 hParent n.value
  obtain ⟨draft₁, hAdd₁, hDocument, hSupply, hKept, hLast⟩ := Draft.exists_add hPath hAdd
  subst hDocument
  have hHere : draft₁.document.contains n.id = true := by
    rw [contains_iff, hNode, if_pos rfl]
    exact ⟨_, rfl⟩
  obtain ⟨draft₂, hReads, hGains⟩ := h draft₁ n.id hComplete hLast hHere (fun y hy => by
    have hne : y ≠ n.id := fun he => hNodup.1 (he ▸ hy)
    rw [contains_eq_false_iff, hNode, if_neg hne, contains_eq_false_iff.mp (hNew.2 y hy)]
    rfl) hNodup.2
  refine ⟨draft₂, (reads_singleton hLength hId hNew.1 hAdd₁).append hReads, hGains.complete,
    hGains.root.trans hRoot, hGains.supply.trans hSupply,
    fun i hi => (hGains.path i (Nat.le_succ_of_le hi)).trans (hKept i hi), fun y => ?_⟩
  rw [hGains.node?, hNode, hIds]
  by_cases hy : y = n.id
  · subst hy
    simp [hNodup.1, hn, Node.adopt]
  · by_cases hMem : y ∈ idsOf entries
    · simp [hMem]
    · simp only [hy, hMem, if_false, List.mem_cons, or_self, Option.map_map]
      refine Option.map_congr fun m hm => Node.adopt_of_ne ?_ _
      rw [Node.id_adopt, id_of_node? hm]
      exact hy

theorem restores_children {children : List NodeId} {f : NodeId → List (Nat × Node)}
    (h : ∀ c ∈ children, d.Restores level [c] (f c)) :
    d.Restores level children (children.flatMap f) := by
  induction children with
  | nil => exact restores_nil d level
  | cons c children ih =>
    rw [List.forall_mem_cons] at h
    exact h.1.append (ih h.2)

/-- Reading the lines of a node and of all below it puts the node in its place. -/
theorem restores_below (hd : d.Complete) (h : d.Suffices fuel x) (hx : d.contains x = true)
    (hIds : ∀ y, ReflTransGen d.HasChild x y → Formula.isTranscludable y = true) :
    d.Restores level [x] (d.entriesBelow fuel level x) := by
  obtain ⟨n, hn⟩ := contains_iff.mp hx
  induction fuel generalizing x level n with
  | zero =>
    rw [Suffices, hn] at h
    cases h
  | succ fuel ih =>
    rw [entriesBelow, hn]
    refine Restores.node hn (hIds x .refl) (restores_children fun c hc => ?_)
    have hChild : d.HasChild x c := ⟨n, hn, hc⟩
    have hContains := hd.children x c hChild
    obtain ⟨m, hm⟩ := contains_iff.mp hContains
    exact ih (h c hChild) hContains (fun y hy => hIds y (.head hChild hy)) m hm

/-! ## Whole outlines -/

/-- The documents that an outline can tell: the root is as in a new document, all nodes are below it,
and ids and texts fit into lines. -/
structure FitsOutline (d : Document) : Prop where
  root : d.root = "root"
  emptyRoot : ∃ n, d.node? d.root = some n ∧ n.value = ""
  reached : ∀ x, d.contains x = true → ReflTransGen d.HasChild d.root x
  ids : ∀ x, d.contains x = true → x ≠ d.root → Formula.isTranscludable x = true
  values : ∀ x n, d.node? x = some n →
    '\n' ∉ n.value.toList ∧ n.value.toList.getLast? ≠ some '\r'

theorem node?_of_mem_entriesBelow {e : Nat × Node} (h : e ∈ d.entriesBelow fuel level x) :
    d.node? e.2.id = some e.2 := by
  induction fuel generalizing level x with
  | zero => cases h
  | succ fuel ih =>
    rw [entriesBelow] at h
    cases hn : d.node? x with
    | none =>
      rw [hn] at h
      cases h
    | some n =>
      rw [hn] at h
      rcases List.mem_cons.mp h with rfl | h
      · exact (congrArg d.node? (id_of_node? hn)).trans hn
      · obtain ⟨c, -, hc⟩ := List.mem_flatMap.mp h
        exact ih hc

theorem lineOf_fits {e : Nat × Node} (hId : Formula.isTranscludable e.2.id = true)
    (hValue : '\n' ∉ e.2.value.toList ∧ e.2.value.toList.getLast? ≠ some '\r') :
    '\n' ∉ lineOf e ∧ (lineOf e).getLast? ≠ some '\r' := by
  have hNotId : '\n' ∉ e.2.id.toList := by
    intro hc
    rw [Formula.isTranscludable, Bool.and_eq_true, List.all_eq_true] at hId
    exact absurd (hId.2 _ hc) (by decide)
  constructor
  · simp [lineOf, hNotId, hValue.1]
  · rw [lineOf]
    cases hText : e.2.value.toList.getLast? with
    | none => simp [List.getLast?_append, List.getLast?_cons, hText]
    | some c =>
      rw [hText, Ne, Option.some.injEq] at hValue
      simp [List.getLast?_append, List.getLast?_cons, hText, hValue.2]

section Fits

variable (hFits : d.FitsOutline) (hd : d.Complete)
include hFits hd

/-- The root has no line, and the ids of all other nodes can stand in brackets. -/
theorem FitsOutline.isTranscludable_below (hChild : d.HasChild d.root c)
    (hy : ReflTransGen d.HasChild c y) : Formula.isTranscludable y = true := by
  have hBelow := TransGen.head' hChild hy
  obtain ⟨p, -, hp⟩ := TransGen.tail'_iff.mp hBelow
  refine hFits.ids y (hd.children p y hp) ?_
  rintro rfl
  exact hd.tidy.forest.acyclic _ hBelow

variable (hn : d.node? d.root = some n)
include hn

theorem FitsOutline.lines_toOutline : Text.lines d.toOutline.toList =
    (n.children.flatMap (d.entriesBelow d.size 0)).map lineOf := by
  have hText : d.toOutline.toList =
      ((n.children.flatMap (d.entriesBelow d.size 0)).map lineOf).flatMap (· ++ ['\n']) := by
    rw [toOutline, hn]
    simp only [String.toList_join, List.map_flatMap, List.flatMap_assoc, List.flatMap_map,
      toList_outlineBelow]
  rw [hText]
  refine Text.lines_flatMap fun l hl => ?_
  obtain ⟨e, he, rfl⟩ := List.mem_map.mp hl
  obtain ⟨c, hc, he⟩ := List.mem_flatMap.mp he
  have hChild : d.HasChild d.root c := ⟨n, hn, hc⟩
  have hBelow := (hd.mem_idsOf_entriesBelow (hd.tidy.suffices c) (hd.children _ c hChild)).mp
    (List.mem_map_of_mem he)
  exact lineOf_fits (hFits.isTranscludable_below hd hChild hBelow)
    (hFits.values _ _ (node?_of_mem_entriesBelow he))

/-- The lines of an outline belong to the nodes below the root, each of which has one line. -/
theorem FitsOutline.ids_lines :
    (idsOf (n.children.flatMap (d.entriesBelow d.size 0))).Nodup ∧
      ∀ y, y ∈ idsOf (n.children.flatMap (d.entriesBelow d.size 0)) ↔
        d.contains y = true ∧ y ≠ d.root := by
  refine ⟨hd.nodup_idsOf_children hn (fun c _ => hd.tidy.suffices c)
    fun c _ => hd.nodup_idsOf_entriesBelow (hd.tidy.suffices c), fun y => ?_⟩
  rw [idsOf_flatMap, List.mem_flatMap]
  have hMem : ∀ c ∈ n.children,
      (y ∈ idsOf (d.entriesBelow d.size 0 c) ↔ ReflTransGen d.HasChild c y) := fun c hc =>
    hd.mem_idsOf_entriesBelow (hd.tidy.suffices c) (hd.children _ c ⟨n, hn, hc⟩)
  constructor
  · rintro ⟨c, hc, hy⟩
    have hBelow := TransGen.head' ⟨n, hn, hc⟩ ((hMem c hc).mp hy)
    obtain ⟨p, -, hp⟩ := TransGen.tail'_iff.mp hBelow
    refine ⟨hd.children p y hp, ?_⟩
    rintro rfl
    exact hd.tidy.forest.acyclic _ hBelow
  · rintro ⟨hy, hne⟩
    rcases ReflTransGen.cases_head (hFits.reached y hy) with heq | ⟨c, ⟨m, hm, hc⟩, hPath⟩
    · exact absurd heq.symm hne
    · obtain rfl : n = m := Option.some.inj (hn.symm.trans hm)
      exact ⟨c, hc, (hMem c hc).mpr hPath⟩

/-- A new document gets all nodes below the root from the lines. -/
theorem FitsOutline.restored (supply : IdSupply) :
    ∃ draft, Reads (n.children.flatMap (d.entriesBelow d.size 0)) ⟨empty, [empty.root], supply⟩
        draft ∧ draft.document.Complete ∧ draft.document.root = d.root ∧ draft.supply = supply ∧
      ∀ y, draft.document.node? y = d.node? y := by
  obtain ⟨hNodup, hMem⟩ := hFits.ids_lines hd hn
  have hEmpty : ∀ y, empty.node? y = if y = d.root then some ⟨d.root, "", []⟩ else none := by
    intro y
    rw [node?, empty, ofRoot, List.find?_singleton, hFits.root]
    simp only [beq_iff_eq, eq_comm (a := y)]
  have hNone : ∀ y, y ≠ d.root → empty.node? y = none := fun y hy =>
    (hEmpty y).trans (if_neg hy)
  have hRestores : d.Restores 0 n.children (n.children.flatMap (d.entriesBelow d.size 0)) := by
    refine restores_children fun c hc => ?_
    have hChild : d.HasChild d.root c := ⟨n, hn, hc⟩
    exact restores_below hd (hd.tidy.suffices c) (hd.children _ c hChild)
      fun y => hFits.isTranscludable_below hd hChild
  obtain ⟨draft, hReads, hGains⟩ := hRestores ⟨empty, [empty.root], supply⟩ d.root
    (complete_ofRoot "root" "") (congrArg some hFits.root.symm)
    (contains_iff.mpr ⟨_, (hEmpty d.root).trans (if_pos rfl)⟩)
    (fun y hy => contains_eq_false_iff.mpr (hNone y ((hMem y).mp hy).2)) hNodup
  refine ⟨draft, hReads, hGains.complete, hGains.root.trans hFits.root.symm, hGains.supply,
    fun y => ?_⟩
  rw [hGains.node?]
  by_cases hy : y ∈ idsOf (n.children.flatMap (d.entriesBelow d.size 0))
  · rw [if_pos hy]
  · rw [if_neg hy, hEmpty]
    split
    · -- The root has got its children back, its text is that of a new root.
      rename_i hRoot
      subst hRoot
      obtain ⟨m, hm, hValue⟩ := hFits.emptyRoot
      obtain rfl : n = m := Option.some.inj (hn.symm.trans hm)
      rw [hn, Option.map_some, Node.adopt, if_pos rfl, List.nil_append, ← hValue]
      exact congrArg some (Node.mk.injEq .. ▸ ⟨(id_of_node? hn).symm, rfl, rfl⟩)
    · rename_i hRoot
      rw [hMem, not_and_not_right] at hy
      symm
      rw [Option.map_none, ← contains_eq_false_iff, Bool.eq_false_iff]
      exact fun hContains => hRoot (hy hContains)

end Fits

/-- Tidy documents with the same nodes under the same ids differ only in the order in which the nodes
were added. -/
theorem Tidy.perm_nodes (hd : d.Tidy) (hd' : d'.Tidy) (h : ∀ y, d'.node? y = d.node? y) :
    d'.nodes.Perm d.nodes := by
  have hMem : ∀ {d : Document}, d.Tidy → ∀ m, m ∈ d.nodes ↔ d.node? m.id = some m :=
    fun hd m => ⟨node?_of_mem hd.ids, List.mem_of_find?_eq_some⟩
  rw [List.perm_ext_iff_of_nodup (List.Nodup.of_map _ hd'.ids) (List.Nodup.of_map _ hd.ids)]
  intro m
  rw [hMem hd', hMem hd, h]

end Document

namespace Linked

open Document

theorem complete_editAll {d : Document} (hd : d.Complete) {edits : List Edit}
    (hFresh : (of d).AllFresh edits) : (d.editAll edits).Complete := by
  induction edits generalizing d with
  | nil => exact hd
  | cons e edits ih =>
    obtain ⟨hFirst, hMore⟩ := hFresh
    rw [apply_of_edit hd.tidy] at hMore
    refine ih ?_ hMore
    rw [Document.edit]
    cases h : d.attempt e with
    | error err => exact hd
    | ok d' => exact hd.attempt hFirst h

theorem IsStart.complete {s : Linked} (h : s.IsStart) : s.document.Complete := by
  cases h with
  | ofRoot id value => exact complete_ofRoot id value
  | @ofOutline _ _ _ _ lines s _ hRun hSame =>
    have hRoot : (⟨.empty, fun _ => none⟩ : Linked) = of .empty := by
      rw [of, Document.empty, parent?_ofRoot]
    rw [hRoot] at hRun
    have hFresh := allFresh_adds (of .empty) lines
    obtain ⟨hOf, -⟩ := run_of (tidy_ofRoot "root" "") hFresh
    have hComplete := complete_editAll (complete_ofRoot "root" "") hFresh
    obtain rfl := hRun.symm.trans hOf
    subst hSame
    exact ⟨⟨hComplete.tidy.ids, hComplete.tidy.forest.nodup,
      hComplete.tidy.forest.parent_unique, hComplete.tidy.forest.acyclic⟩, hComplete.children⟩

/-- Whatever operations have made of a new document or an outline, reading the outline of the
document gives its nodes back, if the outline can tell them at all. -/
theorem ofOutline_toOutline {s : Linked} (hStart : s.IsStart) {edits : List Edit}
    (hFresh : s.AllFresh edits) {d : Document} (hd : (s.run edits).document = d)
    (hFits : d.FitsOutline) (supply : IdSupply) :
    ∃ d', Document.ofOutline supply d.toOutline.toList = .ok (d', supply) ∧ d'.root = d.root ∧
      d'.nodes.Perm d.nodes ∧ ∀ x, d'.node? x = d.node? x := by
  have hComplete : d.Complete := by
    obtain ⟨hOf, -⟩ := hStart.eq_of
    have hComplete := hStart.complete
    rw [hOf] at hFresh hd
    rw [(run_of hComplete.tidy hFresh).1] at hd
    exact hd ▸ complete_editAll hComplete hFresh
  obtain ⟨n, hn, -⟩ := hFits.emptyRoot
  obtain ⟨draft, hReads, hDraft, hRoot, hSupply, hNode⟩ := hFits.restored hComplete hn supply
  refine ⟨{ draft.document with version := 0 }, ?_, hRoot, ?_, hNode⟩
  · have hRead := hReads 1 []
    rw [List.append_nil, Draft.readLines] at hRead
    rw [Document.ofOutline, hFits.lines_toOutline hComplete hn, hRead, ← hSupply]
  · exact hComplete.tidy.perm_nodes ⟨hDraft.tidy.ids, hDraft.tidy.forest.nodup,
      hDraft.tidy.forest.parent_unique, hDraft.tidy.forest.acyclic⟩ hNode

/-- Texts that look like brackets, markers and indentation, at levels that go down and up again. -/
def lookalikes : List Edit :=
  [.add "root" "a" "[x] - y", .add "a" "b" "", .add "b" "c" "  ", .create "e" "- [a] z",
    .insert "a" 0 "e", .add "root" "d/1" "[b]", .insert "root" 1 "c"]

/-- What they make of an empty document. -/
def lookalike : Document :=
  ⟨"root", [⟨"root", "", ["a", "c", "d/1"]⟩, ⟨"a", "[x] - y", ["e", "b"]⟩, ⟨"b", "", []⟩,
    ⟨"c", "  ", []⟩, ⟨"e", "- [a] z", []⟩, ⟨"d/1", "[b]", []⟩], 7⟩

theorem fitsOutline_lookalike : lookalike.FitsOutline where
  root := rfl
  emptyRoot := ⟨_, rfl, rfl⟩
  reached := by
    have hChild : ∀ c ∈ ["a", "c", "d/1"], lookalike.HasChild "root" c :=
      fun c hc => ⟨_, rfl, hc⟩
    have hBelow : ∀ c ∈ ["e", "b"], lookalike.HasChild "a" c := fun c hc => ⟨_, rfl, hc⟩
    have hIds : ∀ x ∈ lookalike.nodes.map Node.id,
        x = "root" ∨ x ∈ ["a", "c", "d/1"] ∨ x ∈ ["e", "b"] := by decide
    intro x hx
    rw [contains_iff_mem] at hx
    rcases hIds x hx with rfl | hx | hx
    · exact .refl
    · exact .single (hChild x hx)
    · exact .tail (.single (hChild "a" (by decide))) (hBelow x hx)
  ids := by
    intro x hx
    rw [contains_iff_mem] at hx
    revert x
    decide
  values := by
    have hAll : ∀ n ∈ lookalike.nodes,
        '\n' ∉ n.value.toList ∧ n.value.toList.getLast? ≠ some '\r' := by decide
    exact fun x n hn => hAll n (List.mem_of_find?_eq_some hn)

theorem ofOutline_toOutline_lookalike :
    lookalike.toOutline =
        "- [a] [x] - y\n  - [e] - [a] z\n  - [b] \n- [c]   \n- [d/1] [b]\n" ∧
      ∃ d', Document.ofOutline .start lookalike.toOutline.toList = .ok (d', .start) ∧
        d'.root = lookalike.root ∧ d'.nodes.Perm lookalike.nodes ∧
        ∀ x, d'.node? x = lookalike.node? x := by
  have hRun : ((⟨.empty, fun _ => none⟩ : Linked).run lookalikes).document = lookalike := by
    decide
  have hFresh : (⟨.empty, fun _ => none⟩ : Linked).AllFresh lookalikes :=
    ⟨trivial, trivial, trivial, rfl, trivial, trivial, trivial, trivial⟩
  exact ⟨by decide +kernel,
    ofOutline_toOutline (.ofRoot "root" "") hFresh hRun fitsOutline_lookalike .start⟩

end Linked

end FormulaOutline
