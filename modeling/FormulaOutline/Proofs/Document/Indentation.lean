import FormulaOutline.Proofs.Document.Outlines
import Mathlib.Data.List.TakeWhile

/-!
# What an outline tells

An outline is a list of lines with levels, told by their indentation. A line belongs below the last
line before it whose level is one less, so the children of a line are the lines of the next level
that stand behind it before the level falls back to its own. Reading keeps to that: it finds the
lines that break a rule and puts all others in their places.

* `Item`: a line with its level, its id and its text; `itemsOf` reads them off the lines alone.
* `Obeys`: the rules for a line behind other lines.
* `childIds`: the children of an item among those behind it.
* `Branches`: the shape of the items below a node; `Steps.branches` finds it in all items that go
  down by single levels.
* `preorder_childIds`: going through the tree of these children gives the items back, by induction
  on this shape.
* `Draft.Holds`: a draft is the tree of some items, open along their last branch.
* `ofOutline_exact`: which texts are outlines, what is wrong with the others, and what the document
  of an outline is.
-/

namespace FormulaOutline

namespace Document

/-! ## Lines -/

/-- A line of an outline; the lines at the margin have the level one. -/
structure Item where
  level : Nat
  id : NodeId
  text : String
deriving DecidableEq, Repr

def indentOf (line : List Char) : Nat := (line.takeWhile (· == ' ')).length

def levelOf (line : List Char) : Nat := indentOf line / 2 + 1

/-- A line behind its indentation. -/
def bodyOf (line : List Char) : List Char := line.dropWhile (· == ' ')

/-- The text behind the marker. -/
def markedText (line : List Char) : List Char := (afterMarker? (bodyOf line)).getD []

/-- The id in brackets behind the marker. -/
def explicitId? (line : List Char) : Option NodeId := (splitId (markedText line)).1

def textOf (line : List Char) : String := String.ofList (splitId (markedText line)).2

/-- A text starts with an id if that stands in brackets and references can name it. -/
theorem splitId_eq_some_iff {body text : List Char} {id : NodeId} :
    splitId body = (some id, text) ↔ Formula.isTranscludable id = true ∧
      ∃ after, body = '[' :: (id.toList ++ ']' :: after) ∧ text = dropSpace after := by
  constructor
  · intro h
    unfold splitId at h
    split at h
    · rename_i rest
      have hWhole := List.takeWhile_append_dropWhile (p := (· != ']')) (l := rest)
      dsimp only at h
      split at h
      · rename_i c after hDrop
        split at h
        · rename_i hId
          cases h
          have hClose : c = ']' := by
            have hHead := List.head?_dropWhile_not (· != ']') rest
            rw [hDrop] at hHead
            simpa using hHead
          rw [hDrop, hClose] at hWhole
          exact ⟨hId, after, by rw [String.toList_ofList, hWhole], rfl⟩
        · cases h
      · cases h
    · cases h
  · rintro ⟨hId, after, rfl, rfl⟩
    exact splitId_bracketed hId after

/-- The lines that are not blank, with their numbers; the first line has the given one. -/
def numberedFrom (number : Nat) (lines : List (List Char)) : List (List Char × Nat) :=
  (lines.zipIdx number).filter (!Text.isBlankText ·.1)

/-- The lines of a text that are not blank, with their numbers, counted from one. -/
def numberedLines (source : List Char) : List (List Char × Nat) :=
  numberedFrom 1 (Text.lines source)

/-- The lines of a text that are not blank. -/
def contentLines (source : List Char) : List (List Char) := (numberedLines source).map Prod.fst

/-! ## Items -/

/-- What a line tells; a line without an id gets the next one of the supply. -/
def itemOf (supply : IdSupply) (line : List Char) : Item :=
  ⟨levelOf line, (explicitId? line).getD supply.next.1, textOf line⟩

/-- The supply after a line. -/
def supplyAfter (supply : IdSupply) (line : List Char) : IdSupply :=
  if (explicitId? line).isSome then supply else supply.next.2

def itemsOf : IdSupply → List (List Char) → List Item
  | _, [] => []
  | supply, line :: rest => itemOf supply line :: itemsOf (supplyAfter supply line) rest

theorem length_itemsOf (supply : IdSupply) (lines : List (List Char)) :
    (itemsOf supply lines).length = lines.length := by
  induction lines generalizing supply with
  | nil => rfl
  | cons line lines ih => rw [itemsOf, List.length_cons, ih, List.length_cons]

/-- The root stands before all lines. -/
def rootItem : Item := ⟨0, "root", ""⟩

/-- No id that the supply gives to a line is that of an item before the line. -/
def NewIds : List Item → IdSupply → List (List Char) → Prop
  | _, _, [] => True
  | earlier, supply, line :: rest =>
      (explicitId? line = none → supply.next.1 ∉ earlier.map Item.id) ∧
        NewIds (earlier ++ [itemOf supply line]) (supplyAfter supply line) rest

instance decidableNewIds (earlier : List Item) (supply : IdSupply) :
    (lines : List (List Char)) → Decidable (NewIds earlier supply lines)
  | [] => .isTrue trivial
  | line :: lines =>
      have := decidableNewIds (earlier ++ [itemOf supply line]) (supplyAfter supply line) lines
      inferInstanceAs (Decidable (_ ∧ _))

/-! ## Rules -/

def lastLevel (items : List Item) : Nat := (items.getLast?.map Item.level).getD 0

/-- A line that stands behind some items obeys a rule, named by the fault of breaking it. -/
def Obeys (earlier : List Item) (line : List Char) : OutlineFault → Prop
  | .oddIndent => indentOf line % 2 = 0
  | .skippedLevel => levelOf line ≤ lastLevel earlier + 1
  | .noMarker => (bodyOf line).head? = some '-'
  | .idExists => ∀ id ∈ explicitId? line, id ∉ earlier.map Item.id
  | .other _ => True

instance (earlier : List Item) (line : List Char) : DecidablePred (Obeys earlier line)
  | .oddIndent => inferInstanceAs (Decidable (_ = _))
  | .skippedLevel => inferInstanceAs (Decidable (_ ≤ _))
  | .noMarker => inferInstanceAs (Decidable (_ = _))
  | .idExists => inferInstanceAs (Decidable (∀ id ∈ explicitId? line, id ∉ earlier.map Item.id))
  | .other _ => .isTrue trivial

/-- The rules in the order in which they are checked. -/
def rules : List OutlineFault := [.oddIndent, .skippedLevel, .noMarker, .idExists]

/-- The first rule that a line breaks. -/
def brokenRule? (earlier : List Item) (line : List Char) : Option OutlineFault :=
  rules.find? fun rule => ¬ Obeys earlier line rule

/-- Each of the lines obeys all rules behind some items and the lines before it. -/
def Follows (earlier : List Item) (supply : IdSupply) (lines : List (List Char)) : Prop :=
  ∀ before line after, lines = before ++ line :: after →
    ∀ rule ∈ rules, Obeys (earlier ++ itemsOf supply before) line rule

variable {earlier items : List Item} {supply : IdSupply} {line : List Char}
  {lines : List (List Char)} {level fuel : Nat}

theorem brokenRule?_eq_none_iff :
    brokenRule? earlier line = none ↔ ∀ rule ∈ rules, Obeys earlier line rule := by
  simp [brokenRule?]

theorem follows_nil : Follows earlier supply [] := by
  intro before line after h
  simp at h

theorem follows_cons : Follows earlier supply (line :: lines) ↔ brokenRule? earlier line = none ∧
    Follows (earlier ++ [itemOf supply line]) (supplyAfter supply line) lines := by
  rw [brokenRule?_eq_none_iff]
  constructor
  · intro h
    refine ⟨by simpa [itemsOf] using h [] line lines rfl, ?_⟩
    intro before later after hLines
    simpa [itemsOf] using h (line :: before) later after (by rw [hLines]; rfl)
  · rintro ⟨hLine, hMore⟩ before later after hLines
    cases before with
    | nil =>
      cases hLines
      simpa [itemsOf] using hLine
    | cons first before =>
      cases hLines
      simpa [itemsOf] using hMore before later after rfl

instance decidableFollows (earlier : List Item) (supply : IdSupply) :
    (lines : List (List Char)) → Decidable (Follows earlier supply lines)
  | [] => .isTrue follows_nil
  | line :: lines =>
      have := decidableFollows (earlier ++ [itemOf supply line]) (supplyAfter supply line) lines
      decidable_of_iff _ follows_cons.symm

/-- Either all lines obey the rules, or there is a first one that does not. -/
theorem follows_or_broken (earlier : List Item) (supply : IdSupply)
    (lines : List (List Char × Nat)) : Follows earlier supply (lines.map Prod.fst) ∨
      ∃ before line number after rule, lines = before ++ (line, number) :: after ∧
        Follows earlier supply (before.map Prod.fst) ∧
        brokenRule? (earlier ++ itemsOf supply (before.map Prod.fst)) line = some rule := by
  induction lines generalizing earlier supply with
  | nil => exact Or.inl follows_nil
  | cons first lines ih =>
    obtain ⟨line, number⟩ := first
    cases hRule : brokenRule? earlier line with
    | some rule =>
      exact Or.inr ⟨[], line, number, lines, rule, rfl, follows_nil, by simpa [itemsOf] using hRule⟩
    | none =>
      rcases ih (earlier ++ [itemOf supply line]) (supplyAfter supply line) with h | h
      · exact Or.inl (follows_cons.mpr ⟨hRule, h⟩)
      · obtain ⟨before, later, k, after, rule, rfl, hBefore, hBroken⟩ := h
        refine Or.inr ⟨(line, number) :: before, later, k, after, rule, rfl, ?_, ?_⟩
        · exact follows_cons.mpr ⟨hRule, hBefore⟩
        · simpa [itemsOf] using hBroken

/-! ## Children -/

/-- The items of the next level among those behind an item of a level, up to the first one that does
not belong below it. -/
def childIds (level : Nat) (behind : List Item) : List NodeId :=
  ((behind.takeWhile (level < ·.level)).filter (·.level = level + 1)).map Item.id

def Item.node (e : Item) (behind : List Item) : Node := ⟨e.id, e.text, childIds e.level behind⟩

/-- A document holds the nodes of a list of items. -/
def Tells (d : Document) (items : List Item) : Prop :=
  ∀ (i : Nat) (e : Item), items[i]? = some e → d.node? e.id = some (e.node (items.drop (i + 1)))

def Item.ofEntry (e : Nat × Node) : Item := ⟨e.1, e.2.id, e.2.value⟩

/-- The nodes below the root with their levels, each before those below it. -/
def preorder (d : Document) : List Item :=
  match d.node? d.root with
  | none => []
  | some n =>
      (n.children.flatMap (d.entriesBelow d.size 1)).map Item.ofEntry

theorem childIds_eq_nil {behind : List Item} (h : ∀ e ∈ behind.head?, e.level ≤ level) :
    childIds level behind = [] := by
  cases behind with
  | nil => rfl
  | cons e behind =>
    rw [childIds, List.takeWhile_cons_of_neg (by simpa using h e rfl)]
    rfl

/-- A new item at the end belongs below the last item of the level above its own. -/
theorem childIds_concat (level : Nat) (behind : List Item) (new : Item) :
    childIds level (behind ++ [new]) =
      if (∀ e ∈ behind, level < e.level) ∧ new.level = level + 1 then
        childIds level behind ++ [new.id]
      else childIds level behind := by
  by_cases hAll : ∀ e ∈ behind, level < e.level
  · have hTake : ∀ e ∈ behind, decide (level < e.level) = true := by simpa using hAll
    have hSelf : behind.takeWhile (level < ·.level) = behind := by
      exact List.takeWhile_eq_self_iff.mpr hTake
    rw [childIds, childIds, List.takeWhile_append_of_pos hTake, hSelf, List.filter_append,
      List.map_append]
    by_cases hNext : new.level = level + 1
    · rw [if_pos ⟨hAll, hNext⟩]
      simp [hNext]
    · rw [if_neg fun h => hNext h.2]
      by_cases hDeep : level < new.level <;> simp [hDeep, hNext]
  · have hStop : (behind.takeWhile (level < ·.level)).length ≠ behind.length := by
      intro hLength
      refine hAll fun e he => ?_
      rw [← (List.takeWhile_prefix _).eq_of_length hLength] at he
      simpa using List.mem_takeWhile_imp he
    rw [if_neg fun h => hAll h.1, childIds, childIds, List.takeWhile_append, if_neg hStop]

/-- No item is deeper than the one before it by more than one level. -/
def Steps (items : List Item) : Prop := items.IsChain fun a b => b.level ≤ a.level + 1

/-- Items below a node of a level: each item of the next level stands before those below it. -/
inductive Branches : Nat → List Item → Prop
  | nil {level : Nat} : Branches level []
  | cons {level : Nat} {e : Item} {below beside : List Item} : e.level = level + 1 →
      Branches (level + 1) below → Branches level beside → Branches level (e :: (below ++ beside))

theorem Branches.lt (h : Branches level items) : ∀ e ∈ items, level < e.level := by
  induction h with
  | nil => simp
  | cons hLevel _ _ hBelow hBeside =>
    intro f hf
    rcases List.mem_cons.mp hf with rfl | hf
    · omega
    · rcases List.mem_append.mp hf with hf | hf
      · have hLess := hBelow f hf
        omega
      · exact hBeside f hf

theorem Branches.head (h : Branches level items) : ∀ e ∈ items.head?, e.level = level + 1 := by
  cases h with
  | nil => simp
  | cons hLevel =>
    intro f hf
    cases hf
    exact hLevel

/-- Items that go down by single levels stand below a node of the level before the first one. -/
theorem Steps.branches (hSteps : Steps items) (hDeep : ∀ e ∈ items, level < e.level)
    (hHead : ∀ e ∈ items.head?, e.level = level + 1) : Branches level items := by
  induction hLength : items.length using Nat.strong_induction_on generalizing items level with
  | _ n ih =>
  cases items with
  | nil => exact .nil
  | cons e rest =>
    obtain ⟨hFirst, hRest⟩ := List.isChain_cons.mp hSteps
    have hLevel := hHead e rfl
    rw [List.forall_mem_cons] at hDeep
    rw [List.length_cons] at hLength
    have hSplit := List.takeWhile_append_dropWhile (p := (level + 1 < ·.level)) (l := rest)
    have hBoth := congrArg List.length hSplit
    rw [List.length_append] at hBoth
    rw [← hSplit] at hRest ⊢
    refine .cons hLevel (ih _ (by omega) hRest.left_of_append ?_ ?_ rfl)
      (ih _ (by omega) hRest.right_of_append ?_ ?_ rfl)
    · intro f hf
      simpa using List.mem_takeWhile_imp hf
    · intro f hf
      have hDeeper := List.mem_takeWhile_imp (List.mem_of_mem_head? hf)
      have hNext := hFirst f (by
        rw [← hSplit, List.head?_append, Option.mem_def.mp hf, Option.some_or]
        rfl)
      simp only [decide_eq_true_eq] at hDeeper
      omega
    · intro f hf
      exact hDeep.2 f ((List.dropWhile_sublist _).subset hf)
    · intro f hf
      have hStop := List.head?_dropWhile_not (fun f : Item => decide (level + 1 < f.level)) rest
      have hLess := hDeep.2 f ((List.dropWhile_sublist _).subset (List.mem_of_mem_head? hf))
      rw [Option.mem_def.mp hf] at hStop
      simp only [decide_eq_false_iff_not] at hStop
      omega

theorem childIds_cons {e : Item} {below behind : List Item} (hLevel : e.level = level + 1)
    (hBelow : Branches (level + 1) below) :
    childIds level (e :: (below ++ behind)) = e.id :: childIds level behind := by
  have hDeep : ∀ f ∈ below, decide (level < f.level) = true := by
    intro f hf
    have hLess := hBelow.lt f hf
    simp only [decide_eq_true_eq]
    omega
  have hOut : below.filter (·.level = level + 1) = [] := by
    rw [List.filter_eq_nil_iff]
    intro f hf
    have hLess := hBelow.lt f hf
    simp only [decide_eq_true_eq]
    omega
  rw [childIds, List.takeWhile_cons_of_pos (by simp [hLevel]),
    List.takeWhile_append_of_pos hDeep, List.filter_cons_of_pos (by simpa using hLevel),
    List.filter_append, hOut]
  rfl

/-- Going through the nodes below a node of a document gives their items in order. -/
theorem Tells.preorder_childIds {d : Document} (h : d.Tells items) {before block after : List Item}
    (hBlock : Branches level block) (hItems : items = before ++ (block ++ after))
    (hAfter : ∀ e ∈ after.head?, e.level ≤ level) (hFuel : block.length ≤ fuel) :
    ((childIds level (block ++ after)).flatMap (d.entriesBelow fuel (level + 1))).map Item.ofEntry =
      block := by
  induction hBlock generalizing before after fuel with
  | nil =>
    rw [List.nil_append, childIds_eq_nil hAfter]
    rfl
  | @cons level e below beside hLevel hBelow hBeside ihBelow ihBeside =>
    rw [List.length_cons, List.length_append] at hFuel
    obtain ⟨fuel, rfl⟩ : ∃ k, fuel = k + 1 := ⟨fuel - 1, by omega⟩
    have hAtBelow : items = (before ++ [e]) ++ (below ++ (beside ++ after)) := by simp [hItems]
    have hAtBeside : items = (before ++ e :: below) ++ (beside ++ after) := by simp [hItems]
    have hBehind : ∀ f ∈ (beside ++ after).head?, f.level ≤ level + 1 := by
      intro f hf
      rw [List.head?_append, Option.mem_def, Option.or_eq_some_iff] at hf
      rcases hf with hf | ⟨-, hf⟩
      · exact (hBeside.head f hf).le
      · exact Nat.le_succ_of_le (hAfter f hf)
    have hNode : d.node? e.id = some (e.node (below ++ (beside ++ after))) := by
      have hAt : items[before.length]? = some e := by simp [hItems]
      have hDrop : items.drop (before.length + 1) = below ++ (beside ++ after) := by simp [hItems]
      rw [← hDrop]
      exact h before.length e hAt
    have hFirst : (d.entriesBelow (fuel + 1) (level + 1) e.id).map Item.ofEntry = e :: below := by
      rw [entriesBelow, hNode]
      refine congrArg₂ List.cons ?_ ?_
      · rw [Item.ofEntry, Item.node, ← hLevel]
      · rw [Item.node, hLevel]
        exact ihBelow hAtBelow hBehind (by omega)
    have hMore := ihBeside hAtBeside hAfter (show beside.length ≤ fuel + 1 by omega)
    rw [List.cons_append, List.append_assoc, childIds_cons hLevel hBelow, List.flatMap_cons,
      List.map_append, hFirst, hMore]
    rfl

/-! ## Drafts -/

/-- A draft is the tree of some items, and its path leads along the last item of each level. -/
structure Draft.Holds (draft : Draft) (items : List Item) : Prop where
  complete : draft.document.Complete
  root : draft.document.root = "root"
  first : items.head? = some rootItem
  steps : Steps items
  deep : ∀ e ∈ items.tail, 1 ≤ e.level
  ids : draft.document.nodes.map Node.id = items.map Item.id
  tells : draft.document.Tells items
  path : ∀ (k : Nat) (y : NodeId), draft.path[k]? = some y → ∃ (i : Nat) (e : Item),
    items[i]? = some e ∧ e.id = y ∧ e.level = k ∧ ∀ f ∈ items.drop (i + 1), k < f.level
  length : draft.path.length = lastLevel items + 1

theorem holds_start (supply : IdSupply) : Draft.Holds ⟨empty, [empty.root], supply⟩ [rootItem] where
  complete := complete_ofRoot "root" ""
  root := rfl
  first := rfl
  steps := List.isChain_singleton rootItem
  deep := by simp
  ids := rfl
  tells := by
    intro i e he
    obtain ⟨rfl, rfl⟩ : i = 0 ∧ e = rootItem := by
      cases i <;> simp_all
    rfl
  path := by
    intro k y hy
    obtain ⟨rfl, rfl⟩ : k = 0 ∧ y = "root" := by
      cases k <;> simp_all [empty, ofRoot]
    exact ⟨0, rootItem, rfl, rfl, rfl, by simp⟩
  length := rfl

theorem lastLevel_concat (items : List Item) (new : Item) :
    lastLevel (items ++ [new]) = new.level := by
  rw [lastLevel, List.getLast?_concat]
  rfl

/-- Only one item of a level is open, that is, has nothing but deeper items behind it. -/
theorem eq_of_open {i j : Nat} {e f : Item} (hi : items[i]? = some e) (hj : items[j]? = some f)
    (hLevel : e.level = f.level) (hDeeper : ∀ g ∈ items.drop (i + 1), e.level < g.level)
    (hDeeper' : ∀ g ∈ items.drop (j + 1), f.level < g.level) : i = j := by
  have hMem : ∀ {i j : Nat} {f : Item}, items[j]? = some f → i < j → f ∈ items.drop (i + 1) := by
    intro i j f hj hLess
    refine List.mem_of_getElem? (i := j - (i + 1)) ?_
    rw [List.getElem?_drop, Nat.add_sub_cancel' hLess]
    exact hj
  rcases Nat.lt_trichotomy i j with hLess | hSame | hLess
  · have hBehind := hDeeper f (hMem hj hLess)
    omega
  · exact hSame
  · have hBehind := hDeeper' e (hMem hi hLess)
    omega

namespace Draft.Holds

variable {draft : Draft} (h : draft.Holds items)
include h

theorem contains_iff {id : NodeId} :
    draft.document.contains id = true ↔ id ∈ items.map Item.id := by
  rw [contains_iff_mem, h.ids]

theorem nodup : (items.map Item.id).Nodup := h.ids ▸ h.complete.tidy.ids

theorem size_eq : draft.document.size = items.length := by
  have hLength := congrArg List.length h.ids
  rwa [List.length_map, List.length_map] at hLength

theorem eq_of_id_eq {i j : Nat} {e f : Item} (hi : items[i]? = some e) (hj : items[j]? = some f)
    (hId : e.id = f.id) : i = j := by
  obtain ⟨hLess, -⟩ := List.getElem?_eq_some_iff.mp hi
  refine (List.getElem?_inj (by rwa [List.length_map]) h.nodup).mp ?_
  rw [List.getElem?_map, List.getElem?_map, hi, hj, Option.map_some, Option.map_some, hId]

/-- The nodes of a draft that has got an item more. -/
theorem tells_concat {i : Nat} {parent new : Item} {document : Document}
    (hAt : items[i]? = some parent) (hBehind : ∀ f ∈ items.drop (i + 1), parent.level < f.level)
    (hLevel : new.level = parent.level + 1) (hNew : new.id ∉ items.map Item.id)
    (hNode : ∀ y, document.node? y = if y = new.id then some ⟨new.id, new.text, []⟩
      else (draft.document.node? y).map (·.adopt parent.id [new.id])) :
    document.Tells (items ++ [new]) := by
  intro j e he
  by_cases hOld : j < items.length
  · rw [List.getElem?_append_left hOld] at he
    have hne : e.id ≠ new.id := fun hId =>
      hNew (hId ▸ List.mem_map_of_mem (List.mem_of_getElem? he))
    have hHere : (∀ f ∈ items.drop (j + 1), e.level < f.level) ∧ new.level = e.level + 1 ↔
        e.id = parent.id := by
      constructor
      · rintro ⟨hDeeper, hNext⟩
        obtain rfl := eq_of_open he hAt (by omega) hDeeper hBehind
        rw [Option.some.inj (he.symm.trans hAt)]
      · intro hId
        obtain rfl := h.eq_of_id_eq he hAt hId
        obtain rfl := Option.some.inj (he.symm.trans hAt)
        exact ⟨hBehind, hLevel⟩
    rw [hNode, if_neg hne, h.tells j e he, Option.map_some, List.drop_append_of_le_length hOld,
      Node.adopt, Item.node, Item.node, childIds_concat]
    simp only [hHere]
    split <;> rfl
  · have hLast : j = items.length := by
      have hLess := (List.getElem?_eq_some_iff.mp he).1
      rw [List.length_append, List.length_singleton] at hLess
      omega
    subst hLast
    obtain rfl : new = e := by simpa using he
    rw [hNode, if_pos rfl, List.drop_eq_nil_of_le (by simp)]
    rfl

/-- The path of a draft that has got an item more. -/
theorem path_concat {new : Item} (hLevel : new.level ≤ draft.path.length) {k : Nat} {y : NodeId}
    (hy : (draft.path.take new.level ++ [new.id])[k]? = some y) : ∃ (i : Nat) (e : Item),
      (items ++ [new])[i]? = some e ∧ e.id = y ∧ e.level = k ∧
        ∀ f ∈ (items ++ [new]).drop (i + 1), k < f.level := by
  have hTake : (draft.path.take new.level).length = new.level := by
    rw [List.length_take]
    omega
  by_cases hOpen : k < new.level
  · rw [List.getElem?_append_left (by omega), List.getElem?_take_of_lt hOpen] at hy
    obtain ⟨i, e, he, hId, hSame, hBehind⟩ := h.path k y hy
    have hLess := (List.getElem?_eq_some_iff.mp he).1
    refine ⟨i, e, by rw [List.getElem?_append_left hLess, he], hId, hSame, ?_⟩
    rw [List.drop_append_of_le_length hLess]
    intro f hf
    rcases List.mem_append.mp hf with hf | hf
    · exact hBehind f hf
    · exact List.mem_singleton.mp hf ▸ hOpen
  · have hLast : k = new.level := by
      have hLess := (List.getElem?_eq_some_iff.mp hy).1
      rw [List.length_append, hTake, List.length_singleton] at hLess
      omega
    subst hLast
    obtain rfl : new.id = y := by
      rw [List.getElem?_append_right (by omega), hTake, Nat.sub_self] at hy
      exact Option.some.inj hy
    exact ⟨items.length, new, by simp, rfl, rfl, by simp⟩

/-- A line that is not too deep is added as the next item. -/
theorem add {id : NodeId} (hLevel : level ≤ lastLevel items) (hNew : id ∉ items.map Item.id)
    (text : String) : ∃ draft', draft.add (level + 1) id text = .ok draft' ∧
      draft'.supply = draft.supply ∧ draft'.Holds (items ++ [⟨level + 1, id, text⟩]) := by
  have hLength := h.length
  obtain ⟨parent, hPath⟩ : ∃ parent, draft.path[level]? = some parent :=
    ⟨_, List.getElem?_eq_getElem (by omega)⟩
  obtain ⟨i, p, hAt, rfl, rfl, hBehind⟩ := h.path level parent hPath
  have hContains : draft.document.contains p.id = true :=
    h.contains_iff.mpr (List.mem_map_of_mem (List.mem_of_getElem? hAt))
  have hAbsent : draft.document.contains id = false := by
    rw [← Bool.not_eq_true, h.contains_iff]
    exact hNew
  obtain ⟨document, hAdd, hComplete, hRoot, hNode⟩ :=
    h.complete.addChild hAbsent hContains text
  have hOpen : p.level + 1 ≤ draft.path.length := by omega
  refine ⟨_, Draft.add_eq_ok hPath hAdd, rfl, hComplete, hRoot.trans h.root, ?_, ?_, ?_, ?_,
    h.tells_concat hAt hBehind rfl hNew hNode, ?_, ?_⟩
  · rw [List.head?_append, h.first, Option.some_or]
  · refine List.IsChain.append h.steps (List.isChain_singleton _) ?_
    intro e he f hf
    obtain rfl := Option.some.inj hf
    rw [lastLevel, Option.mem_def.mp he, Option.map_some, Option.getD_some] at hLevel
    exact Nat.succ_le_succ hLevel
  · intro e he
    obtain ⟨rest, rfl⟩ : ∃ rest, items = rootItem :: rest :=
      ⟨items.tail, (List.cons_head?_tail h.first).symm⟩
    rcases List.mem_append.mp he with he | he
    · exact h.deep e he
    · exact List.mem_singleton.mp he ▸ Nat.succ_pos _
  · obtain ⟨n, hInsert⟩ := addChild_eq_ok hAdd
    rw [(insert_frame hInsert).2.1, append, List.map_append, h.ids, List.map_append]
    rfl
  · intro k y hy
    exact h.path_concat hOpen hy
  · rw [lastLevel_concat, List.length_append, List.length_take, List.length_singleton]
    simp only
    omega

end Draft.Holds

/-! ## Reading lines -/

theorem afterMarker?_eq_none_iff {s : List Char} : afterMarker? s = none ↔ s.head? ≠ some '-' := by
  cases s with
  | nil => simp [afterMarker?]
  | cons c s =>
    rw [List.head?_cons, Ne, Option.some.injEq]
    unfold afterMarker?
    split <;> simp_all

/-- The line is checked and added in terms of its parts. -/
theorem Draft.readLine_eq (draft : Draft) (number : Nat) (line : List Char) :
    draft.readLine number line =
      if indentOf line % 2 ≠ 0 then .error (.invalidOutline number .oddIndent)
      else if draft.path.length < levelOf line then .error (.invalidOutline number .skippedLevel)
      else if (bodyOf line).head? ≠ some '-' then .error (.invalidOutline number .noMarker)
      else if ∃ id ∈ explicitId? line, draft.document.contains id = true then
        .error (.invalidOutline number .idExists)
      else Draft.add ⟨draft.document, draft.path, supplyAfter draft.supply line⟩ (levelOf line)
        (itemOf draft.supply line).id (textOf line) := by
  have hBody : line.dropWhile (· == ' ') = bodyOf line := rfl
  rw [Draft.readLine]
  refine if_congr Iff.rfl rfl (if_congr Iff.rfl rfl ?_)
  rw [hBody]
  cases hMarker : afterMarker? (bodyOf line) with
  | none => rw [if_pos (afterMarker?_eq_none_iff.mp hMarker)]
  | some body =>
    have hMarked : markedText line = body := by rw [markedText, hMarker, Option.getD_some]
    have hHead : ¬ (bodyOf line).head? ≠ some '-' := by
      rw [← afterMarker?_eq_none_iff, hMarker]
      exact Option.some_ne_none body
    rw [if_neg hHead, textOf, itemOf, supplyAfter, explicitId?, hMarked]
    dsimp only
    rcases splitId body with ⟨_ | id, text⟩
    · simp [levelOf, indentOf]
    · simp [levelOf, indentOf]

theorem brokenRule?_eq (earlier : List Item) (line : List Char) : brokenRule? earlier line =
    if indentOf line % 2 ≠ 0 then some .oddIndent
    else if lastLevel earlier + 1 < levelOf line then some .skippedLevel
    else if (bodyOf line).head? ≠ some '-' then some .noMarker
    else if ∃ id ∈ explicitId? line, id ∈ earlier.map Item.id then some .idExists
    else none := by
  have hFind : ∀ (rule : OutlineFault) (more : List OutlineFault),
      (rule :: more).find? (fun rule => ¬ Obeys earlier line rule) =
        if ¬ Obeys earlier line rule then some rule
        else more.find? fun rule => ¬ Obeys earlier line rule := by
    intro rule more
    rw [List.find?_cons]
    split <;> simp_all
  rw [brokenRule?, rules, hFind, hFind, hFind, hFind, List.find?_nil]
  refine if_congr Iff.rfl rfl (if_congr Nat.not_le rfl (if_congr Iff.rfl rfl ?_))
  refine if_congr ?_ rfl rfl
  simp [Obeys]

theorem numberedFrom_cons (number : Nat) (line : List Char) (lines : List (List Char)) :
    numberedFrom number (line :: lines) =
      if Text.isBlankText line then numberedFrom (number + 1) lines
      else (line, number) :: numberedFrom (number + 1) lines := by
  rw [numberedFrom, List.zipIdx_cons, List.filter_cons]
  cases Text.isBlankText line <;> rfl

namespace Draft.Holds

variable {draft : Draft} {number : Nat} (h : draft.Holds items)
include h

/-- A line that breaks a rule is refused, any other one is added. -/
theorem readLine_eq (number : Nat) (line : List Char) : draft.readLine number line =
    match brokenRule? items line with
    | some rule => .error (.invalidOutline number rule)
    | none => Draft.add ⟨draft.document, draft.path, supplyAfter draft.supply line⟩ (levelOf line)
        (itemOf draft.supply line).id (textOf line) := by
  rw [Draft.readLine_eq, brokenRule?_eq]
  simp only [h.length, h.contains_iff]
  split
  · rfl
  · split
    · rfl
    · split
      · rfl
      · split <;> rfl

/-- The number of changes and the supply make no difference. -/
theorem of_nodes (version : Nat) (supply : IdSupply) :
    Draft.Holds ⟨{ draft.document with version }, draft.path, supply⟩ items where
  complete :=
    have hForest := h.complete.tidy.forest
    ⟨⟨h.complete.tidy.ids, hForest.nodup, hForest.parent_unique, hForest.acyclic⟩,
      h.complete.children⟩
  root := h.root
  first := h.first
  steps := h.steps
  deep := h.deep
  ids := h.ids
  tells := h.tells
  path := h.path
  length := h.length

theorem readLine_of_unbroken (hRule : brokenRule? items line = none)
    (hNew : explicitId? line = none → draft.supply.next.1 ∉ items.map Item.id) (number : Nat) :
    ∃ draft', draft.readLine number line = .ok draft' ∧
      draft'.supply = supplyAfter draft.supply line ∧
      draft'.Holds (items ++ [itemOf draft.supply line]) := by
  rw [h.readLine_eq, hRule]
  rw [brokenRule?_eq_none_iff] at hRule
  have hLevel : levelOf line ≤ lastLevel items + 1 := hRule .skippedLevel (by simp [rules])
  have hId : (itemOf draft.supply line).id ∉ items.map Item.id := by
    cases hExplicit : explicitId? line with
    | none =>
      rw [itemOf, hExplicit, Option.getD_none]
      exact hNew hExplicit
    | some id =>
      rw [itemOf, hExplicit, Option.getD_some]
      exact hRule .idExists (by simp [rules]) id hExplicit
  exact (h.of_nodes draft.document.version _).add (Nat.le_of_succ_le_succ hLevel) hId (textOf line)

/-- Lines that obey the rules are read, and the draft gets their items. -/
theorem readLines_of_follows {raw : List (List Char)}
    (hNew : NewIds items draft.supply ((numberedFrom number raw).map Prod.fst))
    (hFollows : Follows items draft.supply ((numberedFrom number raw).map Prod.fst)) :
    ∃ draft', Draft.readLines number raw draft = .ok draft' ∧
      draft'.Holds (items ++ itemsOf draft.supply ((numberedFrom number raw).map Prod.fst)) := by
  induction raw generalizing draft items number with
  | nil => exact ⟨draft, rfl, by simpa [numberedFrom, itemsOf] using h⟩
  | cons line raw ih =>
    rw [numberedFrom_cons] at hNew hFollows ⊢
    rw [Draft.readLines]
    split
    · rename_i hBlank
      rw [if_pos hBlank] at hNew hFollows
      exact ih h hNew hFollows
    · rename_i hBlank
      rw [if_neg hBlank, List.map_cons] at hNew hFollows
      obtain ⟨hHere, hLater⟩ := hNew
      obtain ⟨hRule, hMore⟩ := follows_cons.mp hFollows
      obtain ⟨next, hRead, hSupply, hNext⟩ := h.readLine_of_unbroken hRule hHere number
      rw [← hSupply] at hLater hMore
      obtain ⟨draft', hReads, hHolds⟩ := ih hNext hLater hMore
      refine ⟨draft', by rw [hRead]; exact hReads, ?_⟩
      rw [hSupply, List.append_assoc] at hHolds
      exact hHolds

/-- The first line that breaks a rule is reported. -/
theorem readLines_of_broken {raw : List (List Char)} {before after : List (List Char × Nat)}
    {k : Nat} {rule : OutlineFault}
    (hRaw : numberedFrom number raw = before ++ (line, k) :: after)
    (hNew : NewIds items draft.supply (before.map Prod.fst))
    (hFollows : Follows items draft.supply (before.map Prod.fst))
    (hRule : brokenRule? (items ++ itemsOf draft.supply (before.map Prod.fst)) line = some rule) :
    Draft.readLines number raw draft = .error (.invalidOutline k rule) := by
  induction raw generalizing draft items number before with
  | nil => simp [numberedFrom] at hRaw
  | cons first raw ih =>
    rw [numberedFrom_cons] at hRaw
    rw [Draft.readLines]
    split
    · rename_i hBlank
      rw [if_pos hBlank] at hRaw
      exact ih h hRaw hNew hFollows hRule
    · rename_i hBlank
      rw [if_neg hBlank] at hRaw
      cases before with
      | nil =>
        cases hRaw
        rw [h.readLine_eq]
        simp only [List.map_nil, itemsOf, List.append_nil] at hRule
        rw [hRule]
      | cons e before =>
        rw [List.cons_append] at hRaw
        obtain ⟨rfl, hRest⟩ := List.cons.inj hRaw
        rw [List.map_cons] at hNew hFollows hRule
        obtain ⟨hHere, hLater⟩ := hNew
        obtain ⟨hFirst, hMore⟩ := follows_cons.mp hFollows
        obtain ⟨next, hRead, hSupply, hNext⟩ := h.readLine_of_unbroken hFirst hHere number
        rw [itemsOf, ← List.singleton_append, ← List.append_assoc] at hRule
        rw [← hSupply] at hLater hMore hRule
        rw [hRead]
        exact ih hNext hRest hLater hMore hRule

/-- The document of a draft tells the items below its root in their order. -/
theorem preorder_eq : draft.document.preorder = items.tail := by
  obtain ⟨rest, rfl⟩ : ∃ rest, items = rootItem :: rest :=
    ⟨items.tail, (List.cons_head?_tail h.first).symm⟩
  have hRoot := h.tells 0 rootItem rfl
  rw [preorder, h.root, show draft.document.node? "root" = _ from hRoot]
  have hSteps := List.isChain_cons.mp h.steps
  have hSize : rest.length ≤ draft.document.size := by
    rw [h.size_eq]
    exact Nat.le_succ _
  have hBranches : Branches 0 rest := by
    refine Steps.branches hSteps.2 h.deep fun e he => ?_
    have hLow := h.deep e (List.mem_of_mem_head? he)
    have hHigh := hSteps.1 e he
    exact Nat.le_antisymm hHigh hLow
  have hItems : rootItem :: rest = [rootItem] ++ (rest ++ []) := by simp
  have hAll := h.tells.preorder_childIds hBranches hItems (by simp) hSize
  rw [List.append_nil] at hAll
  exact hAll

end Draft.Holds

/-! ## Whole outlines -/

theorem NewIds.of_append {before after : List (List Char)}
    (h : NewIds earlier supply (before ++ after)) : NewIds earlier supply before := by
  induction before generalizing earlier supply with
  | nil => trivial
  | cons line before ih => exact ⟨h.1, ih h.2⟩

/-- A text is an outline just when its lines obey the rules; otherwise the first line that does not
is reported with the first rule that it breaks. The document of an outline consists of the root and
one node for each line, and going through it gives the lines back. -/
theorem ofOutline_exact (supply : IdSupply) (source : List Char)
    (hNew : NewIds [rootItem] supply (contentLines source)) :
    ((∃ d later, ofOutline supply source = .ok (d, later)) ↔
      Follows [rootItem] supply (contentLines source)) ∧
    (∀ e, ofOutline supply source = .error e ↔ ∃ before line number after rule,
      numberedLines source = before ++ (line, number) :: after ∧
      Follows [rootItem] supply (before.map Prod.fst) ∧
      brokenRule? (rootItem :: itemsOf supply (before.map Prod.fst)) line = some rule ∧
      e = .invalidOutline number rule) ∧
    ∀ d later, ofOutline supply source = .ok (d, later) → d.version = 0 ∧ d.root = "root" ∧
      d.size = (contentLines source).length + 1 ∧
      d.preorder = itemsOf supply (contentLines source) := by
  have hStart := holds_start supply
  have hRead : Follows [rootItem] supply (contentLines source) →
      ∃ draft : Draft, draft.Holds (rootItem :: itemsOf supply (contentLines source)) ∧
        ofOutline supply source = .ok ({ draft.document with version := 0 }, draft.supply) := by
    intro hFollows
    obtain ⟨draft, hReads, hHolds⟩ := hStart.readLines_of_follows hNew hFollows
    exact ⟨draft, hHolds, by rw [ofOutline, hReads]⟩
  have hRefuse : ∀ before line number after rule,
      numberedLines source = before ++ (line, number) :: after →
      Follows [rootItem] supply (before.map Prod.fst) →
      brokenRule? (rootItem :: itemsOf supply (before.map Prod.fst)) line = some rule →
      ofOutline supply source = .error (.invalidOutline number rule) := by
    intro before line number after rule hLines hFollows hRule
    rw [contentLines, hLines, List.map_append] at hNew
    rw [ofOutline, hStart.readLines_of_broken hLines hNew.of_append hFollows hRule]
  have hObeyed : ∀ d later, ofOutline supply source = .ok (d, later) →
      Follows [rootItem] supply (contentLines source) := by
    intro d later hOk
    rcases follows_or_broken [rootItem] supply (numberedLines source) with hFollows | hBroken
    · exact hFollows
    · obtain ⟨before, line, number, after, rule, hLines, hFollows, hRule⟩ := hBroken
      rw [hRefuse before line number after rule hLines hFollows hRule] at hOk
      cases hOk
  refine ⟨⟨?_, ?_⟩, fun e => ⟨?_, ?_⟩, ?_⟩
  · rintro ⟨d, later, hOk⟩
    exact hObeyed d later hOk
  · intro hFollows
    obtain ⟨draft, -, hOk⟩ := hRead hFollows
    exact ⟨_, _, hOk⟩
  · intro hError
    rcases follows_or_broken [rootItem] supply (numberedLines source) with hFollows | hBroken
    · obtain ⟨draft, -, hOk⟩ := hRead hFollows
      rw [hOk] at hError
      cases hError
    · obtain ⟨before, line, number, after, rule, hLines, hFollows, hRule⟩ := hBroken
      rw [hRefuse before line number after rule hLines hFollows hRule] at hError
      cases hError
      exact ⟨before, line, number, after, rule, hLines, hFollows, hRule, rfl⟩
  · rintro ⟨before, line, number, after, rule, hLines, hFollows, hRule, rfl⟩
    exact hRefuse before line number after rule hLines hFollows hRule
  · intro d later hOk
    obtain ⟨draft, hHolds, hSame⟩ := hRead (hObeyed d later hOk)
    rw [hOk] at hSame
    cases hSame
    refine ⟨rfl, hHolds.root, hHolds.size_eq.trans ?_, (hHolds.of_nodes 0 draft.supply).preorder_eq⟩
    rw [List.length_cons, length_itemsOf]

/-- Levels that go down and come back at once, with blank lines and ids of both kinds. -/
def uneven : List Char := "- [a] top\n\n  - below\n    -[] deep\n- \n \t\n  -[b-1]end".toList

/-- The third line is too deep; the fifth one would take an id again. -/
def misplaced : List Char := "- [a] top\n\n    - below\n  - fits\n- [a] again".toList

theorem ofOutline_exact_uneven :
    (NewIds [rootItem] .start (contentLines uneven) ∧
      ∃ d later, ofOutline .start uneven = .ok (d, later) ∧ d.size = 6 ∧ d.preorder =
        [⟨1, "a", "top"⟩, ⟨2, IdSupply.nameOf 1, "below"⟩, ⟨3, IdSupply.nameOf 2, "[] deep"⟩,
          ⟨1, IdSupply.nameOf 3, ""⟩, ⟨2, "b-1", "end"⟩]) ∧
    NewIds [rootItem] .start (contentLines misplaced) ∧
      ofOutline .start misplaced = .error (.invalidOutline 3 .skippedLevel) := by
  have hNew : NewIds [rootItem] .start (contentLines uneven) := by decide +kernel
  have hNew' : NewIds [rootItem] .start (contentLines misplaced) := by decide +kernel
  obtain ⟨hOk, -, hTells⟩ := ofOutline_exact .start uneven hNew
  obtain ⟨-, hError, -⟩ := ofOutline_exact .start misplaced hNew'
  obtain ⟨d, later, hRead⟩ := hOk.mpr (by decide +kernel)
  obtain ⟨-, -, hSize, hItems⟩ := hTells d later hRead
  refine ⟨⟨hNew, d, later, hRead, hSize.trans ?_, hItems.trans ?_⟩, hNew', ?_⟩
  · decide +kernel
  · decide +kernel
  · refine (hError _).mpr ⟨[("- [a] top".toList, 1)], "    - below".toList, 3,
      [("  - fits".toList, 4), ("- [a] again".toList, 5)], .skippedLevel, ?_, ?_, ?_, rfl⟩
    · decide +kernel
    · decide +kernel
    · decide +kernel

end Document

end FormulaOutline
