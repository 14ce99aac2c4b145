import FormulaOutline.Document.Outline
import FormulaOutline.Function.Builtin
import FormulaOutline.Proofs.Pattern.Learning
import FormulaOutline.Proofs.Session.Operations

/-!
# Patterns at their anchors

Whatever values the scopes of a tree have, a pattern that is learned from an example gives the
example back at its anchor. Learning looks from the anchor for the scope of each argument and notes
how it was found only if no scope of its type is nearer; so a search from the anchor by type comes
to the same scope.

* `ScopeTree.withStates`: a tree with other values on its scopes.
* `Pattern.Replays`: a pattern gives the call back, and its searches find the nodes of arguments.
* `Learned.replays`: what is learned from a call gives it back at the anchor.
* `learn_replays`: so does everything that is learned, in every tree that a session comes to.
-/

namespace FormulaOutline

open Formula ScopeTree Session

variable {t : ScopeTree} {x y : ScopeId}

/-! ## Other values -/

namespace ScopeTree

/-- The tree with the given states of evaluation on its scopes. -/
def withStates (t : ScopeTree) (states : ScopeId → EvalState) : ScopeTree :=
  (t.arena.entries.map Prod.fst).foldl
    (fun t x => t.modify x fun r => { r with state := states x }) t

theorem record?_foldl_state (states : ScopeId → EvalState) (ids : List ScopeId) :
    (ids.foldl (fun t x => t.modify x fun r => { r with state := states x }) t).record? y =
      if y ∈ ids then (t.record? y).map fun r => { r with state := states y }
      else t.record? y := by
  induction ids generalizing t with
  | nil => rfl
  | cons x ids ih =>
    rw [List.foldl_cons, ih, record?_modify]
    by_cases hxy : y = x
    · subst hxy
      rw [if_pos rfl, if_pos List.mem_cons_self, Option.map_map]
      split <;> rfl
    · rw [if_neg hxy]
      simp only [List.mem_cons, hxy, false_or]

theorem record?_withStates (t : ScopeTree) (states : ScopeId → EvalState) (x : ScopeId) :
    (t.withStates states).record? x =
      (t.record? x).map fun r => { r with state := states x } := by
  rw [withStates, record?_foldl_state]
  split
  · rfl
  · rename_i hx
    cases hr : t.record? x with
    | none => rfl
    | some r => exact absurd (List.mem_map_of_mem (Arena.mem_entries_iff.mpr hr)) hx

/-- Values make no difference to the links of a tree. -/
theorem Rooted.withStates (h : t.Rooted) (states : ScopeId → EvalState) :
    (t.withStates states).Rooted := by
  rw [ScopeTree.withStates]
  generalize t.arena.entries.map Prod.fst = ids
  induction ids generalizing t with
  | nil => exact h
  | cons x ids ih => exact ih (h.modify x fun _ => rfl)

end ScopeTree

/-! ## Examples -/

/-- The call from which a pattern is learned. -/
def exampleCall? (t : ScopeTree) (x : ScopeId) : Option Expr :=
  (t.record? (Pattern.siteOf t x ((t.node? x).getD ""))).bind fun r => r.bullet.singleCall?

/-- A pattern gives the call of its function with some arguments back at a scope. -/
structure Pattern.Replays (p : Pattern) (t : ScopeTree) (args : List (Argument Expr))
    (beside : ScopeId) : Prop where
  /-- The arguments have their names and their order. -/
  names : p.arguments.map Prod.fst = args.map Argument.name
  /-- The call is the same up to spans. -/
  call : p.synthesize t beside = some (Expr.call .none p.function args).withoutSpans
  /-- Each argument that is searched for is found to be the node to which the call refers. -/
  finds : ∀ (i : Nat) (name : Option String) (rule : Rule) (arg : Argument Expr),
    p.arguments[i]? = some (name, rule) → args[i]? = some arg → rule.IsSearch →
      ∃ n, arg.target? = some n ∧ Pattern.findNode? t beside rule = some n

namespace Learned

variable {registry : Registry} {site beside : ScopeId} {p : Pattern} {args : List (Argument Expr)}
  {place i : Nat} {name : Option String} {rule : Rule} {arg : Argument Expr}
  (h : Learned t registry site p args place beside)
include h

theorem getElem?_arguments (i : Nat) : p.arguments[i]? = args[i]?.map fun arg =>
    (arg.name, if i = place then .anchor else Pattern.ruleFor t beside arg) := by
  rw [h.arguments, List.getElem?_map, List.getElem?_zipIdx, Option.map_map, Nat.zero_add]
  rfl

/-- The anchor is one of the arguments, and only one. -/
theorem anchor_iff (hRooted : t.Rooted) (hPlace : args[place]? = some arg) :
    p.arguments[i]? = some (name, .anchor) ↔ i = place ∧ name = arg.name := by
  rw [h.getElem?_arguments, Option.map_eq_some_iff]
  constructor
  · rintro ⟨other, hOther, hSame⟩
    obtain ⟨rfl, hRule⟩ := Prod.mk.inj hSame
    by_cases hi : i = place
    · subst hi
      rw [hPlace, Option.some.injEq] at hOther
      exact ⟨rfl, by rw [hOther]⟩
    · rw [if_neg hi] at hRule
      rcases ruleFor_cases hRooted beside other with hLiteral | ⟨hSearch, -⟩
      · rw [hLiteral] at hRule
        cases hRule
      · rw [hRule] at hSearch
        exact hSearch.elim
  · rintro ⟨rfl, rfl⟩
    exact ⟨arg, hPlace, by rw [if_pos rfl]⟩

theorem replays (hRooted : t.Rooted) : p.Replays t args beside where
  names := by
    apply List.ext_getElem?
    intro i
    rw [List.getElem?_map, List.getElem?_map, h.getElem?_arguments, Option.map_map]
    rfl
  call := h.synthesize hRooted
  finds i name rule arg hRule hArg hSearch := by
    rw [h.getElem?_arguments, hArg, Option.map_some, Option.some.injEq, Prod.mk.injEq] at hRule
    obtain ⟨-, rfl⟩ := hRule
    by_cases hi : i = place
    · rw [if_pos hi] at hSearch
      exact hSearch.elim
    · rw [if_neg hi] at hSearch ⊢
      rcases ruleFor_cases hRooted beside arg with hLiteral | ⟨-, hFound⟩
      · rw [hLiteral] at hSearch
        exact hSearch.elim
      · exact hFound

end Learned

/-- In every tree that a session comes to, with any values on its scopes, a pattern that is learned
from an example gives the example back at the scope of its anchor. -/
theorem learn_replays (d : Document) (functions : Registry) (config : EngineConfig)
    (providers : Directory) {s : Session}
    (h : Reachable (ofTree (.build d) functions config providers) s)
    (states : ScopeId → EvalState) (registry : Registry) {x : ScopeId} {p : Pattern}
    (hLearn : Pattern.learn (s.tree.withStates states) registry x = .ok p) :
    ∃ (span : Span) (args : List (Argument Expr)),
      exampleCall? (s.tree.withStates states) x = some (.call span p.function args) ∧
      ∃ (place : Nat) (arg : Argument Expr) (n : NodeId) (a : ScopeId),
        (∀ i name, p.arguments[i]? = some (name, Rule.anchor) ↔ i = place ∧ name = arg.name) ∧
        args[place]? = some arg ∧ arg.target? = some n ∧
        (s.tree.withStates states).scopeForNode? n = some a ∧
        p.Replays (s.tree.withStates states) args a := by
  have hRooted := (h.rooted (rooted_build d)).withStates states
  obtain ⟨-, args, place, beside, hLearned⟩ := learn_eq_ok_iff.mp hLearn
  obtain ⟨span, hCall⟩ := hLearned.call
  obtain ⟨arg, hPlace, hAnchor⟩ := hLearned.exists_argument
  obtain ⟨⟨n, hTarget, hScope⟩, -⟩ := anchor?_eq_some_iff.mp hAnchor
  exact ⟨span, args, hCall, place, arg, n, beside, fun i name => hLearned.anchor_iff hRooted hPlace,
    hPlace, hTarget, hScope, hLearned.replays hRooted⟩

/-- A formula between two numbers, below one flight and before another one. -/
def tripOutline : String :=
  "- [d] LH400\n" ++
  "  - [a] 1\n" ++
  "  - [f] \x7bGo(#[b], #[a], on: #[d], #[c])\x7d\n" ++
  "  - [b] 2\n" ++
  "  - [c] LH401\n"

def trip : Document :=
  ⟨"root", [⟨"root", "", ["d"]⟩, ⟨"d", "LH400", ["a", "f", "b", "c"]⟩, ⟨"a", "1", []⟩,
    ⟨"f", "\x7bGo(#[b], #[a], on: #[d], #[c])\x7d", []⟩, ⟨"b", "2", []⟩,
    ⟨"c", "LH401", []⟩], 0⟩

def tripArguments : List (Argument Expr) :=
  [⟨none, .reference ⟨4, 8, 1, 5⟩ "b", ⟨4, 8, 1, 5⟩⟩,
    ⟨none, .reference ⟨10, 14, 1, 11⟩ "a", ⟨10, 14, 1, 11⟩⟩,
    ⟨some "on", .reference ⟨20, 24, 1, 21⟩ "d", ⟨16, 24, 1, 17⟩⟩,
    ⟨none, .reference ⟨26, 30, 1, 27⟩ "c", ⟨26, 30, 1, 27⟩⟩]

def tripCall : Expr := .call ⟨1, 31, 1, 2⟩ "Go" tripArguments

def tripBlueprint : Blueprint :=
  let text (node value : String) (span : Span) (below : List Blueprint) : Blueprint :=
    .scope node ⟨none, [.string span value], span⟩ below []
  let a := text "a" "1" ⟨0, 1, 1, 1⟩ []
  let b := text "b" "2" ⟨0, 1, 1, 1⟩ []
  let c := text "c" "LH401" ⟨0, 5, 1, 1⟩ []
  let f : Blueprint := .scope "f" ⟨none, [.inline ⟨0, 32, 1, 1⟩ tripCall], ⟨0, 32, 1, 1⟩⟩ []
    [b, a, .placeholder "d", c]
  .scope "root" ⟨none, [], ⟨0, 0, 1, 1⟩⟩ [text "d" "LH400" ⟨0, 5, 1, 1⟩ [a, f, b, c]] []

set_option maxRecDepth 4000 in
theorem build_trip : build trip = planted tripBlueprint := build_eq (by cbv)

/-- Values of the scopes below the root. -/
def tripStates (x : ScopeId) : EvalState :=
  match x.index with
  | 1 => .resolved [.flightNumber "LH400"]
  | 2 => .resolved [.number 1]
  | 8 => .resolved [.number 2]
  | 9 => .resolved [.flightNumber "LH401"]
  | _ => .idle

def tripTree : ScopeTree := (build trip).withStates tripStates

/-- There is an argument for each rule that searches. -/
def tripPattern : Pattern :=
  ⟨"Go", ⟨"0", .number, .above⟩,
    [(none, .anchor), (none, .prevSibling .number), (some "on", .closestAncestor .flightNumber),
      (none, .nextSibling .flightNumber)], "f"⟩

theorem learn_replays_trip :
    Document.ofOutline .start tripOutline.toList = .ok (trip, .start) ∧
      Pattern.learn tripTree (.builtin false) ⟨3, 0⟩ = .ok tripPattern ∧
      ∃ a, tripTree.scopeForNode? "b" = some a ∧
        tripPattern.synthesize tripTree a = some tripCall.withoutSpans := by
  have hLearn : Pattern.learn tripTree (.builtin false) ⟨3, 0⟩ = .ok tripPattern := by
    rw [tripTree, build_trip]
    cbv
  have hCall : exampleCall? tripTree ⟨3, 0⟩ = some tripCall := by
    rw [tripTree, build_trip]
    cbv
  obtain ⟨span, args, hExample, place, arg, n, a, hPlace, hArg, hTarget, hScope, hReplays⟩ :=
    learn_replays trip (.builtin false) .default .empty .refl tripStates (.builtin false) hLearn
  obtain ⟨rfl, -⟩ := (hPlace 0 none).mp rfl
  obtain ⟨-, -, rfl⟩ := Expr.call.inj (Option.some.inj (hExample.symm.trans hCall))
  cases hArg
  cases hTarget
  exact ⟨by cbv, hLearn, a, hScope, hReplays.call⟩

end FormulaOutline
