import FormulaOutline.Document.Outline
import FormulaOutline.Function.Builtin
import FormulaOutline.Proofs.Evaluation.Steady
import FormulaOutline.Proofs.Scope.Layout
import FormulaOutline.Session.Run

/-!
# Values behind pointers

A part of a scope can point to another scope, and a part of that one can point on. The value of a
scope has the own value of a scope in the place of a pointer, and an own value leaves out what it
points to. So following the pointers in a value need not give the values of the scopes they lead to:
what stands behind a second pointer is lost.

* `flatMap_sublist`, `flatMap_eq_iff`: texts that are joined, with characters left out.
* `combine_follow_eq_iff`: two ways to follow the pointers of a scope give the same value.
* `ownValue_eq_value_iff`: when the own value of a scope is its value.
* `value_eq_follow_iff`: the value of a scope is that of its parts with each pointer followed to the
  value of a scope just when nothing is lost.
* `value_stops`: an outline in which a number is lost.
-/

namespace FormulaOutline

namespace ScopeTree

variable {t : ScopeTree} {x s : ScopeId} {values : List Value} {f g : ScopeId → Value}

/-! ## Joined texts -/

section Lists

variable {α β : Type} {l : List α} {p q : α → List β}

theorem flatMap_sublist (h : ∀ a ∈ l, (p a).Sublist (q a)) :
    (l.flatMap p).Sublist (l.flatMap q) := by
  induction l with
  | nil => exact List.Sublist.refl []
  | cons a l ih =>
    rw [List.forall_mem_cons] at h
    rw [List.flatMap_cons, List.flatMap_cons]
    exact h.1.append (ih h.2)

/-- Nothing is left out of the whole just when nothing is left out of any piece. -/
theorem flatMap_eq_iff (h : ∀ a ∈ l, (p a).Sublist (q a)) :
    l.flatMap p = l.flatMap q ↔ ∀ a ∈ l, p a = q a := by
  refine ⟨fun hSame => ?_, fun hSame => List.flatMap_congr hSame⟩
  induction l with
  | nil => exact List.forall_mem_nil _
  | cons a l ih =>
    rw [List.forall_mem_cons] at h
    have hRest := flatMap_sublist h.2
    have hLength := congrArg List.length hSame
    simp only [List.flatMap_cons, List.length_append] at hLength
    have hFirst := h.1.eq_of_length (by
      have hLe := h.1.length_le
      have hLe' := hRest.length_le
      omega)
    rw [List.forall_mem_cons]
    refine ⟨hFirst, ih h.2 ?_⟩
    rw [List.flatMap_cons, List.flatMap_cons, hFirst] at hSame
    exact List.append_cancel_left hSame

end Lists

/-! ## Values of several parts -/

/-- A scope with one part. -/
def IsSingle (t : ScopeTree) (x : ScopeId) : Prop := ∃ v, t.values? x = some [v]

theorem combine_many (v w : Value) (rest : List Value) : combine (v :: w :: rest) =
    .text (String.join ((v :: w :: rest).map Value.display)) :=
  rfl

theorem toList_display_combine (values : List Value) :
    (combine values).display.toList = values.flatMap (·.display.toList) := by
  match values with
  | [] => rfl
  | [v] => simp [combine]
  | v :: w :: rest =>
    rw [combine_many, Value.display, String.toList_join, List.flatMap_map]

/-- Values of several parts are told apart by their texts. -/
theorem combine_map_eq_iff {p q : Value → Value} :
    combine (values.map p) = combine (values.map q) ↔
      (combine (values.map p)).display = (combine (values.map q)).display ∧
        ∀ v, values = [v] → p v = q v := by
  match values with
  | [] => simp
  | [v] =>
    refine ⟨fun h => ⟨congrArg Value.display h, fun w hw => ?_⟩, fun h => h.2 v rfl⟩
    cases hw
    exact h
  | v :: w :: rest =>
    refine ⟨fun h => ⟨congrArg Value.display h, fun u hu => by cases hu⟩, fun h => ?_⟩
    exact congrArg Value.text h.1

/-- What holds of each value and itself holds of the values of a scope with their pointers followed
in two ways just when it holds of what the pointers are followed to. -/
theorem forall_followWith_iff {P : Value → Value → Prop} (hRefl : ∀ v, P v v)
    (hx : t.values? x = some values) : (∀ v ∈ values, P (followWith f v) (followWith g v)) ↔
      ∀ y ∈ t.targets x, P (f y) (g y) := by
  constructor
  · exact fun h y hy => h _ ((mem_targets hx).mp hy)
  · intro h v hv
    cases v with
    | scope y => exact h y ((mem_targets hx).mpr hv)
    | _ => exact hRefl _

section Follow

variable (hx : t.values? x = some values)
  (hLess : ∀ y ∈ t.targets x, (f y).display.toList.Sublist (g y).display.toList)
include hx hLess

theorem followWith_sublist : ∀ v ∈ values,
    (followWith f v).display.toList.Sublist (followWith g v).display.toList :=
  (forall_followWith_iff (P := fun v w => v.display.toList.Sublist w.display.toList)
    (fun _ => List.Sublist.refl _) hx).mpr hLess

theorem display_follow_sublist : (combine (values.map (followWith f))).display.toList.Sublist
    (combine (values.map (followWith g))).display.toList := by
  rw [toList_display_combine, toList_display_combine, List.flatMap_map, List.flatMap_map]
  exact flatMap_sublist (followWith_sublist hx hLess)

theorem display_follow_eq_iff : (combine (values.map (followWith f))).display =
    (combine (values.map (followWith g))).display ↔
      ∀ y ∈ t.targets x, (f y).display = (g y).display := by
  rw [← String.toList_inj, toList_display_combine, toList_display_combine, List.flatMap_map,
    List.flatMap_map, flatMap_eq_iff (followWith_sublist hx hLess),
    forall_followWith_iff (P := fun v w => v.display.toList = w.display.toList) (fun _ => rfl) hx]
  exact forall₂_congr fun y _ => String.toList_inj

/-- Two ways to follow the pointers of a scope give the same value if they give the same texts, and
the same value for a pointer that is all of the scope. -/
theorem combine_follow_eq_iff : combine (values.map (followWith f)) =
    combine (values.map (followWith g)) ↔
      ∀ y ∈ t.targets x, (f y).display = (g y).display ∧ (t.IsSingle x → f y = g y) := by
  rw [combine_map_eq_iff, display_follow_eq_iff hx hLess]
  constructor
  · rintro ⟨hTexts, hAlone⟩ y hy
    refine ⟨hTexts y hy, ?_⟩
    rintro ⟨v, hv⟩
    obtain rfl := Option.some.inj (hx.symm.trans hv)
    obtain rfl := List.mem_singleton.mp ((mem_targets hx).mp hy)
    exact hAlone _ rfl
  · intro h
    refine ⟨fun y hy => (h y hy).1, ?_⟩
    rintro v rfl
    exact (forall_followWith_iff (P := Eq) (fun _ => rfl) hx).mpr (fun y hy => (h y hy).2 ⟨v, hx⟩)
      v List.mem_cons_self

end Follow

/-! ## Own values and values -/

theorem targets_eq_nil (hx : t.values? x = none) : t.targets x = [] := by
  rw [targets, hx]
  rfl

theorem ownValue_of_values (hx : t.values? x = some values) :
    t.ownValue x = combine (values.map (followWith fun _ => .undefined)) := by
  rw [ownValue, hx]

theorem value_of_values (hx : t.values? x = some values) :
    t.value x = combine (values.map (followWith t.ownValue)) := by
  rw [value, hx]

theorem undefined_sublist (v : Value) :
    (Value.display .undefined).toList.Sublist v.display.toList :=
  List.nil_sublist _

/-- The own value of a scope has the text of its value, up to what its pointers add. -/
theorem ownValue_sublist (t : ScopeTree) (x : ScopeId) :
    (t.ownValue x).display.toList.Sublist (t.value x).display.toList := by
  cases hx : t.values? x with
  | none =>
    rw [ownValue, value, hx]
  | some values =>
    rw [ownValue_of_values hx, value_of_values hx]
    exact display_follow_sublist hx fun y _ => undefined_sublist _

theorem display_ownValue_eq_iff (t : ScopeTree) (x : ScopeId) :
    (t.ownValue x).display = (t.value x).display ↔
      ∀ y ∈ t.targets x, (t.ownValue y).display = "" := by
  cases hx : t.values? x with
  | none =>
    rw [ownValue, value, hx, targets_eq_nil hx]
    simp
  | some values =>
    rw [ownValue_of_values hx, value_of_values hx,
      display_follow_eq_iff hx fun y _ => undefined_sublist (t.ownValue y)]
    exact forall₂_congr fun y _ => eq_comm

theorem ownValue_eq_value_iff (t : ScopeTree) (x : ScopeId) : t.ownValue x = t.value x ↔
    ∀ y ∈ t.targets x, (t.ownValue y).display = "" ∧
      (t.IsSingle x → t.ownValue y = .undefined) := by
  cases hx : t.values? x with
  | none =>
    rw [ownValue, value, hx, targets_eq_nil hx]
    simp
  | some values =>
    rw [ownValue_of_values hx, value_of_values hx,
      combine_follow_eq_iff hx fun y _ => undefined_sublist (t.ownValue y)]
    exact forall₂_congr fun y _ => and_congr eq_comm (imp_congr_right fun _ => eq_comm)

/-- The value of a scope is that of its parts with each pointer followed to the value of a scope
just when the scopes behind two pointers have nothing to add: no text, and no value where each of
both pointers is all of its scope. -/
theorem value_eq_follow_iff (h : t.values? s = some values) :
    t.value s = combine (values.map (followWith t.value)) ↔
      ∀ x ∈ t.targets s, ∀ y ∈ t.targets x, (t.ownValue y).display = "" ∧
        (t.IsSingle s → t.IsSingle x → t.ownValue y = .undefined) := by
  rw [value_of_values h, combine_follow_eq_iff h fun x _ => t.ownValue_sublist x]
  refine forall₂_congr fun x _ => ?_
  rw [display_ownValue_eq_iff, ownValue_eq_value_iff]
  constructor
  · rintro ⟨hTexts, hAlone⟩ y hy
    exact ⟨hTexts y hy, fun hs => (hAlone hs y hy).2⟩
  · intro hAll
    refine ⟨fun y hy => (hAll y hy).1, fun hs y hy => ⟨(hAll y hy).1, (hAll y hy).2 hs⟩⟩

/-! ## Two pointers -/

/-- A number, a pointer to it, and a pointer to that pointer. -/
def chainOutline : String := "- [y] 5\n- [x] \x7b#[y]\x7d\n- [s] \x7b#[x]\x7d\n"

def chain : Document :=
  ⟨"root", [⟨"root", "", ["y", "x", "s"]⟩, ⟨"y", "5", []⟩, ⟨"x", "\x7b#[y]\x7d", []⟩,
    ⟨"s", "\x7b#[x]\x7d", []⟩], 0⟩

/-- The scope of a node that refers to one other node. -/
def pointerTo (node target : NodeId) (below : Blueprint) : Blueprint :=
  .scope node ⟨none, [.inline ⟨0, 6, 1, 1⟩ (.reference ⟨1, 5, 1, 2⟩ target)], ⟨0, 6, 1, 1⟩⟩ []
    [below]

def chainBlueprint : Blueprint :=
  let number := .scope "y" ⟨none, [.string ⟨0, 1, 1, 1⟩ "5"], ⟨0, 1, 1, 1⟩⟩ [] []
  let pointer := pointerTo "x" "y" number
  .scope "root" ⟨none, [], ⟨0, 0, 1, 1⟩⟩ [number, pointer, pointerTo "s" "x" pointer] []

theorem build_chain : build chain = planted chainBlueprint := build_eq (by cbv)

/-- The tree after all evaluations. -/
def chainTree : ScopeTree :=
  ((Session.ofTree (build chain) (.builtin false) .default .empty).startAll
    (build chain).root).settle.tree

/-- Behind the first pointer nothing points on, and the number is found. -/
theorem value_eq_follow_iff_chain : chainTree.values? ⟨5, 0⟩ = some [.scope ⟨6, 0⟩] ∧
    chainTree.value ⟨5, 0⟩ = combine ([.scope ⟨6, 0⟩].map (followWith chainTree.value)) := by
  have hValues : chainTree.values? ⟨5, 0⟩ = some [.scope ⟨6, 0⟩] := by
    rw [chainTree, build_chain]
    rfl
  have hEnd : ∀ x ∈ chainTree.targets ⟨5, 0⟩, chainTree.targets x = [] := by
    rw [chainTree, build_chain]
    decide +kernel
  refine ⟨hValues, (value_eq_follow_iff hValues).mpr fun x hx y hy => ?_⟩
  rw [hEnd x hx] at hy
  cases hy

/-- All scopes have their values, and they point only to scopes that they own. The last one has no
value, though the scope to which it points has the number, and it has the number's type itself. -/
theorem value_stops :
    Document.ofOutline .start chainOutline.toList = .ok (chain, .start) ∧
      (∀ e ∈ chainTree.arena.entries, e.2.state.isResolved = true ∧
        ∀ y ∈ chainTree.targets e.1, chainTree.isLive y = true ∧
          y ∈ e.2.transcluded.map Prod.snd) ∧
      chainTree.values? ⟨4, 0⟩ = some [.scope ⟨5, 0⟩] ∧
      chainTree.value ⟨5, 0⟩ = .number 5 ∧ chainTree.typedValue? ⟨4, 0⟩ = some (.number 5) ∧
      chainTree.value ⟨4, 0⟩ = .undefined ∧
      chainTree.value ⟨4, 0⟩ ≠ combine ([.scope ⟨5, 0⟩].map (followWith chainTree.value)) := by
  have hInner : chainTree.value ⟨5, 0⟩ = .number 5 := by
    rw [chainTree, build_chain]
    rfl
  have hOuter : chainTree.value ⟨4, 0⟩ = .undefined := by
    rw [chainTree, build_chain]
    rfl
  refine ⟨by cbv, ?_, ?_, hInner, ?_, hOuter, ?_⟩
  · rw [chainTree, build_chain]
    decide +kernel
  · rw [chainTree, build_chain]
    rfl
  · rw [chainTree, build_chain]
    rfl
  · rw [hOuter, List.map_singleton, combine, followWith, hInner]
    intro hSame
    cases hSame

end ScopeTree

end FormulaOutline
