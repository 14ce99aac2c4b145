import FormulaOutline.Proofs.Formula.Rereading
import FormulaOutline.Proofs.Pattern.Passes
import FormulaOutline.Proofs.Pattern.Repeating

/-!
# Applying a pattern twice

What a pattern takes from its example was read from a text, so it can be written, and the formulas
that are added are read again as calls of the shapes that the pattern makes. After one pass of the
pattern no scope is without its formula, and a second pass over the same tree adds nothing.

* `printable_of_singleCall?`: a call that was read as a whole bullet.
* `Learned.printable`: the example of a pattern with finite numbers.
* `fillable_of_writable`: the scopes below the root.
* `apply_again`: the second pass.
-/

namespace FormulaOutline

open Relation Formula Document ScopeTree

variable {d : Document} {p : Pattern} {t : ScopeTree} {x site beside : ScopeId}
  {functions : Registry} {args : List (Argument Expr)} {place : Nat} {supply : IdSupply}
  {progress final : Pattern.Progress}

/-! ## Calls that were read -/

namespace Formula

variable {call : Expr}

/-- Around the call there is nothing but blanks. -/
theorem isFinite_of_singleCall? {b : Bullet} (h : b.singleCall? = some call)
    (hFinite : call.IsFinite) : ∀ e ∈ b.parts, e.IsFinite := by
  obtain ⟨span, hParts⟩ := exists_inline_of_singleCall? h
  intro e he
  cases hBlank : Bullet.isBlankPart e with
  | true =>
    cases e with
    | string => exact List.forall_mem_nil _
    | _ => cases hBlank
  | false =>
    have hMem : e ∈ b.parts.filter (!Bullet.isBlankPart ·) :=
      List.mem_filter.mpr ⟨he, by rw [hBlank]; rfl⟩
    rw [hParts, List.mem_singleton] at hMem
    rw [hMem, Expr.IsFinite, Expr.numbers]
    exact hFinite

/-- A call that was read as a whole bullet can be written and read again. -/
theorem printable_of_singleCall? {source : List Char}
    (h : (bulletOrLiteral source).singleCall? = some call) (hFinite : call.IsFinite) :
    call.Printable := by
  rw [bulletOrLiteral] at h
  split at h
  · rename_i b hRead
    have hPrintable := (printable_of_parseBullet hRead (isFinite_of_singleCall? h hFinite)).1
    obtain ⟨span, hMem⟩ := exists_mem_parts_of_singleCall? h
    cases hPrintable.parts _ hMem with
    | inline hCall => exact hCall
  · -- Literal text is no formula.
    obtain ⟨span, hMem⟩ := exists_mem_parts_of_singleCall? h
    rw [Bullet.literal] at hMem
    dsimp only at hMem
    split at hMem
    · cases hMem
    · cases List.mem_singleton.mp hMem

end Formula

/-! ## Examples -/

/-- What a rule takes from its example as it is has finite numbers only. -/
def Rule.IsFinite : Rule → Prop
  | .literal e => e.IsFinite
  | _ => True

instance (rule : Rule) : Decidable rule.IsFinite :=
  match rule with
  | .literal e => inferInstanceAs (Decidable e.IsFinite)
  | .anchor | .closestAncestor _ | .prevSibling _ | .nextSibling _ => isTrue trivial

def Pattern.IsFinite (p : Pattern) : Prop := ∀ arg ∈ p.arguments, arg.2.IsFinite

instance (p : Pattern) : Decidable p.IsFinite :=
  inferInstanceAs (Decidable (∀ arg ∈ p.arguments, arg.2.IsFinite))

theorem numbers_of_target? {arg : Argument Expr} {n : NodeId} (h : arg.target? = some n) :
    arg.value.numbers = [] := by
  rw [← numbers_withoutSpans, withoutSpans_of_target? h, Expr.numbers]

namespace Learned

variable (h : Learned t functions site p args place beside)
include h

/-- All other arguments of the example are references. -/
theorem isFinite (hRooted : t.Rooted) (hFinite : p.IsFinite) (s : Span) :
    (Expr.call s p.function args).IsFinite := by
  intro y hy
  rw [Expr.numbers, mem_argumentNumbers] at hy
  obtain ⟨arg, hArg, hNumber⟩ := hy
  obtain ⟨i, hi⟩ := List.mem_iff_getElem?.mp hArg
  have hTarget : ∀ n, arg.target? ≠ some n := by
    intro n hn
    rw [numbers_of_target? hn] at hNumber
    cases hNumber
  have hOther : i ≠ place := by
    rintro rfl
    obtain ⟨found, hFound, hAnchor⟩ := h.exists_argument
    obtain ⟨⟨n, hn, -⟩, -⟩ := anchor?_eq_some_iff.mp hAnchor
    obtain rfl := Option.some.inj (hi.symm.trans hFound)
    exact hTarget n hn
  have hRule := h.getElem?_arguments i
  rw [hi, Option.map_some, if_neg hOther] at hRule
  rcases ruleFor_cases hRooted beside arg with hLiteral | ⟨-, n, hn, -⟩
  · have hTaken := hFinite _ (List.mem_of_getElem? hRule)
    rw [hLiteral] at hTaken
    refine hTaken y ?_
    rw [numbers_withoutSpans]
    exact hNumber
  · exact absurd hn (hTarget n)

/-- The example was read from the text of its node. -/
theorem printable (hQuoted : Blueprint.Quoted d.IsBullet t.arena) (hRooted : t.Rooted)
    (hFinite : p.IsFinite) : ∃ s, (Expr.call s p.function args).Printable := by
  obtain ⟨s, hCall⟩ := h.call
  obtain ⟨r, hr, -⟩ := Option.bind_eq_some_iff.mp hCall
  have hNode : t.node? site = some r.node := by
    rw [ScopeTree.node?, hr, Option.map_some]
  obtain ⟨m, s, -, hRead⟩ := h.exists_node hQuoted hNode
  exact ⟨s, printable_of_singleCall? hRead (h.isFinite hRooted hFinite s)⟩

end Learned

/-! ## Two passes -/

theorem fillable_of_writable (hMirrors : t.Mirrors d)
    (hIds : ∀ n, ReflTransGen d.HasChild d.root n → isTranscludable n = true) (h : Writable p)
    (hx : x ∈ p.sites t) : Fillable p t d x := by
  obtain ⟨hBelow, hSite⟩ := List.mem_filter.mp hx
  have hNatural := hMirrors.rooted.mem_below_iff.mp hBelow
  obtain ⟨node, hNode⟩ := hMirrors.node_of_natural hNatural
  refine ⟨?_, fun formula => h.synthesize fun rule n hFound => ?_⟩
  · rcases hMirrors.reads hNatural hNode with ⟨-, hHidden, -⟩ | ⟨n, hn, -⟩
    · simp [hHidden] at hSite
    · exact ⟨node, n, hNode, hn⟩
  · obtain ⟨y, hy, hNode⟩ := exists_of_findNode? hMirrors.rooted hNatural hFound
    exact hIds n (hMirrors.reached_of_natural hy hNode)

/-- A pattern that was learned in the tree of a document, with any values on its scopes, can be applied
there, and applying it once more to the changed document and the same tree adds nothing and changes
nothing. -/
theorem apply_again (hd : d.Tidy)
    (hIds : ∀ n, ReflTransGen d.HasChild d.root n → isTranscludable n = true)
    (states : ScopeId → EvalState) (functions : Registry)
    (hLearn : Pattern.learn ((build d).withStates states) functions x = .ok p)
    (hFinite : p.IsFinite) (hUnused : supply.IsUnused d) :
    ∃ final, p.apply ((build d).withStates states) d supply = .ok final ∧
      ∀ later, p.apply ((build d).withStates states) final.document later =
        .ok ⟨final.document, later, []⟩ := by
  have hShape := (build d).sameShape_withStates states
  have hMirrors := (mirrors_build hd.forest).of_sameShape hShape
    ((rooted_build d).withStates states).sound
  obtain ⟨-, args, place, beside, hLearned⟩ := learn_eq_ok_iff.mp hLearn
  obtain ⟨s, hPrintable⟩ :=
    hLearned.printable (hShape.quoted (quoted_build d)) hMirrors.rooted hFinite
  have hWritable := hLearned.writable hMirrors.rooted hPrintable
  obtain ⟨final, hApply, -⟩ := hMirrors.apply hd hUnused p
  have hPlans := Supplied.run hUnused
    (fun _ hx => fillable_of_writable hMirrors hIds hWritable hx)
    ⟨.refl hd, Nat.le_refl _, List.forall_mem_nil _⟩ hApply
  exact ⟨final, hApply, fun later => apply_eq_of_plans hPlans⟩

/-- Three dates, and the days between the first two of them with arguments that stay as they are. -/
def ratedOutline : String :=
  "- [a] 2025-05-01\n- [f] \x7bDays(#[a], #[b], as: \"d\", per: 2.50 * x.y, at:)\x7d\n" ++
  "- [b] 2025-05-09\n- [c] 2025-06-09\n"

def rated : Document :=
  ⟨"root", [⟨"root", "", ["a", "f", "b", "c"]⟩, ⟨"a", "2025-05-01", []⟩,
    ⟨"f", "\x7bDays(#[a], #[b], as: \"d\", per: 2.50 * x.y, at:)\x7d", []⟩,
    ⟨"b", "2025-05-09", []⟩, ⟨"c", "2025-06-09", []⟩], 0⟩

/-- Values of the scopes of dates. -/
def ratedStates (x : ScopeId) : EvalState :=
  match x.index with
  | 1 => .resolved [.date ⟨2025, 5, 1, by decide⟩]
  | 5 => .resolved [.date ⟨2025, 5, 9, by decide⟩]
  | 6 => .resolved [.date ⟨2025, 6, 9, by decide⟩]
  | _ => .idle

def ratedTree : ScopeTree := (build rated).withStates ratedStates

/-- The days between the second and the third date. -/
def ratedAgain : Insertion :=
  ⟨IdSupply.nameOf 1, "root", 3, "\x7bDays(#[b], #[c], as: \"d\", per: 2.5 * x.y, at:)\x7d", "b"⟩

/-- A formula with a text, a number, names and an argument that is left out is added once. -/
theorem apply_again_rated :
    Document.ofOutline .start ratedOutline.toList = .ok (rated, .start) ∧
      ∃ p, Pattern.learn ratedTree (.builtin false) ⟨2, 0⟩ = .ok p ∧ p.IsFinite ∧
        ∃ final, p.apply ratedTree rated .start = .ok final ∧ final.insertions = [ratedAgain] ∧
          ∀ later, p.apply ratedTree final.document later = .ok ⟨final.document, later, []⟩ := by
  have hOutline : Document.ofOutline .start ratedOutline.toList = .ok (rated, .start) := by
    cbv
  have hFound : (Pattern.learn ratedTree (.builtin false) ⟨2, 0⟩).toOption.any (fun p =>
      decide p.IsFinite && ((p.apply ratedTree rated .start).toOption.map
        Pattern.Progress.insertions == some [ratedAgain])) = true := by
    decide +kernel
  obtain ⟨p, hLearn, hRun⟩ := exists_ok_of_any hFound
  rw [Bool.and_eq_true, decide_eq_true_eq, beq_iff_eq] at hRun
  have hd : rated.Tidy := ⟨by decide, isForest_ofOutline hOutline⟩
  have hUnused : IdSupply.start.IsUnused rated :=
    (IdSupply.isFresh_of_length (by decide +kernel)).isUnused
  obtain ⟨final, hApply, hAgain⟩ := apply_again hd (fun n hn => (by decide : ∀ n ∈
    rated.root :: rated.nodes.flatMap Node.children, isTranscludable n = true) n (mem_of_reached hn))
    ratedStates _ hLearn hRun.1 hUnused
  refine ⟨hOutline, p, hLearn, hRun.1, final, hApply, ?_, hAgain⟩
  have hInsertions := hRun.2
  rw [show p.apply ratedTree rated .start = .ok final from hApply] at hInsertions
  exact Option.some.inj hInsertions

end FormulaOutline
