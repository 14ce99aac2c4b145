import FormulaOutline.Proofs.Document.Operations
import FormulaOutline.Proofs.Scope.Layout

/-!
# The natural place of a node

A node of a forest has one scope whose way up is the way up from the node in the document, without
references: the scope at its natural place. Copies of the node below references are not flagged
either, so the scope that is found for the node is the natural one just when no copy comes first.

* `find?_stems`: the first stem of a node that is not flagged is the natural one unless the node is
  shadowed.
* `scopeForNode?_natural_iff`: the scope of a node is the natural one just when the node is not
  shadowed.
* `scopeForNode?_not_natural`: an outline in which it is not.
-/

namespace FormulaOutline

open Formula

/-! ## Stems of blueprints -/

namespace Blueprint

variable {above : Stem} {transclusion : Bool} {stem : Stem}

theorem stemsAll_eq (above : Stem) (transclusion : Bool) (bs : List Blueprint) :
    stemsAll above transclusion bs = bs.flatMap (stems above transclusion) := by
  induction bs with
  | nil => rfl
  | cons b rest ih => rw [stemsAll, ih, List.flatMap_cons]

/-- The first stem is that of the scope on top. -/
theorem stems_head (above : Stem) (transclusion : Bool) (b : Blueprint) :
    ∃ rest, b.stems above transclusion = ((b.node, transclusion) :: above) :: rest := by
  cases b with
  | placeholder n => exact ⟨[], rfl⟩
  | scope n bullet children references => exact ⟨_, by rw [stems]; rfl⟩

mutual

/-- All stems of a blueprint go through its top. -/
theorem suffix_of_mem_stems {above : Stem} {transclusion : Bool} {stem : Stem} :
    (b : Blueprint) → stem ∈ b.stems above transclusion →
    ((b.node, transclusion) :: above) <:+ stem
  | placeholder n, h => by
    rw [stems, List.mem_singleton] at h
    rw [h]
    exact List.suffix_refl _
  | scope n bullet children references, h => by
    rw [stems, List.mem_cons, List.mem_append] at h
    rcases h with rfl | h | h
    · exact List.suffix_refl _
    · obtain ⟨m, hm⟩ := suffix_of_mem_stemsAll children h
      exact (List.suffix_cons _ _).trans hm
    · obtain ⟨m, hm⟩ := suffix_of_mem_stemsAll references h
      exact (List.suffix_cons _ _).trans hm

theorem suffix_of_mem_stemsAll {above : Stem} {transclusion : Bool} {stem : Stem} :
    (bs : List Blueprint) → stem ∈ stemsAll above transclusion bs →
    ∃ n, ((n, transclusion) :: above) <:+ stem
  | [], h => by
    rw [stemsAll] at h
    cases h
  | b :: rest, h => by
    rw [stemsAll, List.mem_append] at h
    rcases h with h | h
    · exact ⟨b.node, suffix_of_mem_stems b h⟩
    · exact suffix_of_mem_stemsAll rest h

end

/-- A stem goes through one node at each height. -/
theorem eq_of_suffixes {n n' : NodeId} {flag flag' : Bool}
    (h : ((n, flag) :: above) <:+ stem) (h' : ((n', flag') :: above) <:+ stem) :
    n = n' ∧ flag = flag' := by
  have hs := List.suffix_of_suffix_length_le h h' (by simp)
  have heq := hs.eq_of_length (by simp)
  simpa using heq

end Blueprint

namespace Document

open Blueprint

variable {d : Document}

/-! ## Stems of unfolded documents -/

theorem unfoldWithin_eq_scope {fuel : Nat} {path : List NodeId} {id : NodeId} {n : Node}
    (hid : id ∉ path) (hn : d.node? id = some n) : d.unfoldWithin (fuel + 1) path id =
      .scope id (bulletOrLiteral n.value.toList)
        (n.children.map (d.unfoldWithin fuel (id :: path)))
        ((bulletOrLiteral n.value.toList).referencedIds.map
          (d.unfoldWithin fuel (id :: path))) := by
  rw [unfoldWithin, if_neg (by simpa using hid), hn]

theorem unfoldWithin_eq_placeholder {fuel : Nat} {path : List NodeId} {id : NodeId}
    (h : id ∈ path ∨ d.node? id = none) : d.unfoldWithin (fuel + 1) path id = .placeholder id := by
  rw [unfoldWithin]
  by_cases hid : id ∈ path
  · rw [if_pos (by simpa using hid)]
  · rw [if_neg (by simpa using hid), h.resolve_left hid]

/-- The stems below several nodes. -/
def stemsBelow (d : Document) (fuel : Nat) (path : List NodeId) (above : Stem)
    (transclusion : Bool) (ids : List NodeId) : List Stem :=
  ids.flatMap fun id => (d.unfoldWithin fuel path id).stems above transclusion

theorem stems_unfoldWithin {fuel : Nat} {path : List NodeId} {id : NodeId} {n : Node}
    (hid : id ∉ path) (hn : d.node? id = some n) (above : Stem) (transclusion : Bool) :
    (d.unfoldWithin (fuel + 1) path id).stems above transclusion =
      ((id, transclusion) :: above) ::
        (d.stemsBelow fuel (id :: path) ((id, transclusion) :: above) false n.children ++
          d.stemsBelow fuel (id :: path) ((id, transclusion) :: above) true
            (bulletOrLiteral n.value.toList).referencedIds) := by
  rw [unfoldWithin_eq_scope hid hn, stems, stemsAll_eq, stemsAll_eq, List.flatMap_map,
    List.flatMap_map]
  rfl

/-- A stem below a node goes through the node. -/
theorem suffix_of_mem_unfoldWithin {fuel : Nat} {path : List NodeId} {id : NodeId} {above : Stem}
    {transclusion : Bool} {stem : Stem}
    (h : stem ∈ (d.unfoldWithin fuel path id).stems above transclusion) :
    ((id, transclusion) :: above) <:+ stem := by
  have hs := suffix_of_mem_stems _ h
  rwa [node_unfoldWithin] at hs

theorem suffix_of_mem_stemsBelow {fuel : Nat} {path : List NodeId} {ids : List NodeId}
    {above : Stem} {transclusion : Bool} {stem : Stem}
    (h : stem ∈ d.stemsBelow fuel path above transclusion ids) :
    ∃ id ∈ ids, ((id, transclusion) :: above) <:+ stem := by
  obtain ⟨id, hid, hstem⟩ := List.mem_flatMap.mp h
  exact ⟨id, hid, suffix_of_mem_unfoldWithin hstem⟩

theorem nodup_stemsBelow {fuel : Nat} {path : List NodeId} {ids : List NodeId} {above : Stem}
    {transclusion : Bool} (hids : ids.Nodup)
    (h : ∀ id, ((d.unfoldWithin fuel path id).stems above transclusion).Nodup) :
    (d.stemsBelow fuel path above transclusion ids).Nodup := by
  refine List.nodup_flatMap.mpr ⟨fun id _ => h id, hids.imp ?_⟩
  intro id id' hne
  rw [Function.onFun, List.disjoint_left]
  intro stem hstem hstem'
  exact hne (eq_of_suffixes (suffix_of_mem_unfoldWithin hstem)
    (suffix_of_mem_unfoldWithin hstem')).1

/-- No two scopes of an unfolded document have the same way up. -/
theorem nodup_stems (hd : ∀ p n, d.node? p = some n → n.children.Nodup) (fuel : Nat)
    (path : List NodeId) (id : NodeId) (above : Stem) (transclusion : Bool) :
    ((d.unfoldWithin fuel path id).stems above transclusion).Nodup := by
  induction fuel generalizing path id above transclusion with
  | zero => exact List.nodup_singleton _
  | succ fuel ih =>
    by_cases hid : id ∈ path
    · rw [unfoldWithin_eq_placeholder (Or.inl hid)]
      exact List.nodup_singleton _
    · cases hn : d.node? id with
      | none =>
        rw [unfoldWithin_eq_placeholder (Or.inr hn)]
        exact List.nodup_singleton _
      | some n =>
        rw [stems_unfoldWithin hid hn]
        refine List.nodup_cons.mpr ⟨?_, List.nodup_append.mpr ⟨?_, ?_, ?_⟩⟩
        · intro hmem
          have hlong : ∃ e, (e :: (id, transclusion) :: above) <:+ (id, transclusion) :: above := by
            rcases List.mem_append.mp hmem with h | h
            · obtain ⟨c, -, hc⟩ := suffix_of_mem_stemsBelow h
              exact ⟨_, hc⟩
            · obtain ⟨c, -, hc⟩ := suffix_of_mem_stemsBelow h
              exact ⟨_, hc⟩
          obtain ⟨e, he⟩ := hlong
          have hlen := he.length_le
          rw [List.length_cons] at hlen
          omega
        · exact nodup_stemsBelow (hd id n hn) fun c => ih _ c _ false
        · exact nodup_stemsBelow (nodup_referencedIds _) fun c => ih _ c _ true
        · rintro stem h stem' h' rfl
          obtain ⟨c, -, hc⟩ := suffix_of_mem_stemsBelow h
          obtain ⟨c', -, hc'⟩ := suffix_of_mem_stemsBelow h'
          cases (eq_of_suffixes hc hc').2

/-! ## Copies of a node -/

/-- The stem of a scope of a node that is not flagged. -/
def IsPlain (n : NodeId) (stem : Stem) : Bool := stem.head? == some (n, false)

theorem isPlain_cons {n m : NodeId} {flag : Bool} {above : Stem} :
    IsPlain n ((m, flag) :: above) = true ↔ m = n ∧ flag = false := by
  simp [IsPlain]

theorem exists_mem_stemsBelow {P : Stem → Prop} {fuel : Nat} {path : List NodeId} {above : Stem}
    {flag : Bool} {ids : List NodeId} :
    (∃ stem ∈ d.stemsBelow fuel path above flag ids, P stem) ↔
      ∃ c ∈ ids, ∃ stem ∈ (d.unfoldWithin fuel path c).stems above flag, P stem := by
  constructor
  · rintro ⟨stem, hstem, hP⟩
    obtain ⟨c, hc, hstem⟩ := List.mem_flatMap.mp hstem
    exact ⟨c, hc, stem, hstem, hP⟩
  · rintro ⟨c, hc, stem, hstem, hP⟩
    exact ⟨stem, List.mem_flatMap.mpr ⟨c, hc, hstem⟩, hP⟩

/-- A node of a forest is a child of its parent alone. -/
theorem mem_children_iff (hd : d.IsForest) {parent n id : NodeId} (hparent : d.HasChild parent n)
    {m : Node} (hm : d.node? id = some m) : n ∈ m.children ↔ id = parent := by
  constructor
  · exact fun hc => hd.parent_unique _ _ _ ⟨m, hm, hc⟩ hparent
  · rintro rfl
    obtain ⟨m', hm', hc⟩ := hparent
    rw [hm] at hm'
    cases hm'
    exact hc

/-- There is a plain scope of a node below another one just when this leads to the node's parent. -/
theorem exists_plain_iff (hd : d.IsForest) {parent n : NodeId} (hparent : d.HasChild parent n)
    {fuel : Nat} {path : List NodeId} (hfuel : d.room path < fuel) (id : NodeId) (above : Stem)
    (transclusion : Bool) :
    (∃ stem ∈ (d.unfoldWithin fuel path id).stems above transclusion, IsPlain n stem = true) ↔
      (id = n ∧ transclusion = false) ∨ d.LeadsAround path id parent := by
  have hthere : d.node? parent ≠ none := by
    obtain ⟨m, hm, -⟩ := hparent
    rw [hm]
    exact Option.some_ne_none m
  induction fuel generalizing path id above transclusion with
  | zero => omega
  | succ fuel ih =>
    by_cases hgone : id ∈ path ∨ d.node? id = none
    · rw [unfoldWithin_eq_placeholder hgone, stems]
      simp only [List.mem_singleton, exists_eq_left, isPlain_cons,
        not_leadsAround hgone hthere, or_false]
    · obtain ⟨hid, hm⟩ := not_or.mp hgone
      obtain ⟨m, hm⟩ := Option.ne_none_iff_exists'.mp hm
      have hroom : d.room (id :: path) < fuel := by
        have := room_cons_lt hm hid
        omega
      rw [stems_unfoldWithin hid hm, leadsAround_iff hm hid, ← mem_children_iff hd hparent hm]
      simp only [List.mem_cons, List.mem_append, or_and_right, exists_or, exists_eq_left,
        isPlain_cons, exists_mem_stemsBelow, ih hroom]
      -- A child is a plain scope of its own; what is referred to is flagged.
      simp only [and_true, reduceCtorEq, and_false, false_or, and_or_left, exists_or,
        exists_eq_right, or_assoc]

/-! ## The natural stem -/

/-- The stem of a scope that stands at the end of a way, without references. -/
def plainStem (way : List NodeId) : Stem := way.reverse.map fun m => (m, false)

theorem plainStem_append (before : List NodeId) (p : NodeId) :
    plainStem (before ++ [p]) = (p, false) :: plainStem before := by
  simp [plainStem]

/-- The natural stem of a way is among the stems below each of its nodes. -/
theorem plainStem_mem {before rest : List NodeId} {p : NodeId}
    (hchain : (p :: rest).IsChain d.HasChild) (hnodup : (before ++ p :: rest).Nodup) {fuel : Nat}
    (hfuel : d.room before.reverse < fuel) : plainStem (before ++ p :: rest) ∈
      (d.unfoldWithin fuel before.reverse p).stems (plainStem before) false := by
  induction rest generalizing before p fuel with
  | nil =>
    obtain ⟨rest, hrest⟩ :=
      stems_head (plainStem before) false (d.unfoldWithin fuel before.reverse p)
    rw [hrest, node_unfoldWithin, plainStem_append]
    exact List.mem_cons_self
  | cons c rest ih =>
    obtain ⟨⟨m, hm, hc⟩, hchain'⟩ := List.isChain_cons_cons.mp hchain
    have hp : p ∉ before.reverse := by
      rw [List.mem_reverse]
      exact fun hmem => (List.nodup_append.mp hnodup).2.2 p hmem p List.mem_cons_self rfl
    cases fuel with
    | zero => omega
    | succ fuel =>
      have hroom : d.room (before ++ [p]).reverse < fuel := by
        have hlt := room_cons_lt hm hp
        rw [List.reverse_append]
        show d.room (p :: before.reverse) < fuel
        omega
      have happend : before ++ p :: c :: rest = before ++ [p] ++ c :: rest := by simp
      rw [happend] at hnodup ⊢
      have hmem := ih hchain' hnodup hroom
      rw [stems_unfoldWithin hp hm, ← plainStem_append]
      refine List.mem_cons_of_mem _ (List.mem_append_left _ (List.mem_flatMap.mpr ⟨c, hc, ?_⟩))
      rwa [List.reverse_append] at hmem

theorem isPlain_plainStem {way : List NodeId} {n : NodeId} (h : way.getLast? = some n) :
    IsPlain n (plainStem way) = true := by
  obtain ⟨before, rfl⟩ := List.getLast?_eq_some_iff.mp h
  rw [plainStem_append]
  exact isPlain_cons.mpr ⟨rfl, rfl⟩

/-- No child that stands before another one on a way is the last node of the way. -/
theorem ne_last_of_precedes (hd : d.IsForest) {p c s n : NodeId} {rest : List NodeId}
    (hchain : (p :: c :: rest).IsChain d.HasChild) (hlast : (c :: rest).getLast? = some n)
    (hs : d.Precedes p s c) : s ≠ n := by
  rintro rfl
  obtain ⟨m, before, after, hm, hchildren, hmem⟩ := hs
  obtain ⟨hpc, hchain'⟩ := List.isChain_cons_cons.mp hchain
  have hps : d.HasChild p s := ⟨m, hm, hchildren ▸ List.mem_append_left _ hmem⟩
  cases rest with
  | nil =>
    obtain rfl : c = s := by simpa using hlast
    have hnodup := hd.nodup p m hm
    rw [hchildren] at hnodup
    exact (List.nodup_append.mp hnodup).2.2 c hmem c List.mem_cons_self rfl
  | cons c' rest =>
    rw [List.getLast?_cons_cons] at hlast
    have hbelow := transGen_of_isChain hchain' s (List.mem_of_getLast? hlast)
    -- The last node is below `c` and has the parent `p`, so `p` would be below itself.
    obtain ⟨q, hcq, hqs⟩ := Relation.TransGen.tail'_iff.mp hbelow
    obtain rfl := hd.parent_unique _ _ _ hps hqs
    exact hd.acyclic _ (Relation.TransGen.head' hpc hcq)

/-! ## Shadows -/

/-- Below a node on the way, and before the way goes on, there is a node that leads to the last
node's parent without passing the way above it. -/
def ShadowedBelow (d : Document) (before : List NodeId) (parent : NodeId) (way : List NodeId) :
    Prop :=
  ∃ upper q m lower s, way = upper ++ q :: m :: lower ∧ d.Precedes q s m ∧
    d.LeadsAround (before ++ upper ++ [q]) s parent

theorem not_shadowedBelow_singleton (before : List NodeId) (parent p : NodeId) :
    ¬ d.ShadowedBelow before parent [p] := by
  rintro ⟨upper, q, m, lower, s, hway, -⟩
  have hlen := congrArg List.length hway
  simp only [List.length_append, List.length_cons, List.length_nil] at hlen
  omega

theorem shadowedBelow_cons (before : List NodeId) (parent p c : NodeId) (rest : List NodeId) :
    d.ShadowedBelow before parent (p :: c :: rest) ↔
      (∃ s, d.Precedes p s c ∧ d.LeadsAround (before ++ [p]) s parent) ∨
        d.ShadowedBelow (before ++ [p]) parent (c :: rest) := by
  constructor
  · rintro ⟨upper, q, m, lower, s, hway, hs, hlead⟩
    cases upper with
    | nil =>
      simp only [List.nil_append, List.cons.injEq] at hway
      obtain ⟨rfl, rfl, rfl⟩ := hway
      exact Or.inl ⟨s, hs, by simpa using hlead⟩
    | cons u upper =>
      simp only [List.cons_append, List.cons.injEq] at hway
      obtain ⟨rfl, hway⟩ := hway
      exact Or.inr ⟨upper, q, m, lower, s, hway, hs, by simpa using hlead⟩
  · rintro (⟨s, hs, hlead⟩ | ⟨upper, q, m, lower, s, hway, hs, hlead⟩)
    · exact ⟨[], p, c, rest, s, rfl, hs, by simpa using hlead⟩
    · exact ⟨p :: upper, q, m, lower, s, by rw [hway]; rfl, hs, by simpa using hlead⟩

/-- The children before a given one are those that precede it. -/
theorem precedes_iff (hd : d.IsForest) {p s c : NodeId} {m : Node} {left right : List NodeId}
    (hm : d.node? p = some m) (hchildren : m.children = left ++ c :: right) :
    d.Precedes p s c ↔ s ∈ left := by
  constructor
  · rintro ⟨m', left', right', hm', hchildren', hs⟩
    rw [hm] at hm'
    cases hm'
    have hnodup := hd.nodup p m hm
    rw [hchildren] at hchildren' hnodup
    rwa [eq_of_append_cons_eq hnodup hchildren']
  · exact fun hs => ⟨m, left, right, hm, hchildren, hs⟩

/-- Below the children before the next node of a way there is a plain scope of the last node just
when one of them leads to this node's parent. -/
theorem exists_plain_before_iff (hd : d.IsForest) {before rest : List NodeId}
    {p c parent n : NodeId} (hparent : d.HasChild parent n)
    (hchain : (p :: c :: rest).IsChain d.HasChild) (hlast : (c :: rest).getLast? = some n)
    {m : Node} {left right : List NodeId}
    (hm : d.node? p = some m) (hchildren : m.children = left ++ c :: right) {fuel : Nat}
    (hfuel : d.room (p :: before.reverse) < fuel) (above : Stem) :
    (∃ stem ∈ d.stemsBelow fuel (p :: before.reverse) above false left, IsPlain n stem = true) ↔
      ∃ s, d.Precedes p s c ∧ d.LeadsAround (before ++ [p]) s parent := by
  rw [exists_mem_stemsBelow]
  refine exists_congr fun s => ?_
  rw [precedes_iff hd hm hchildren]
  refine and_congr_right fun hs => ?_
  have hsn : s ≠ n := ne_last_of_precedes hd hchain hlast ((precedes_iff hd hm hchildren).mpr hs)
  rw [exists_plain_iff hd hparent hfuel, or_iff_right fun h => hsn h.1]
  exact leadsAround_congr fun z => by simp [or_comm]

/-- A search finds a member of the middle of a list just when it finds none before and finds it in
the middle. -/
theorem find?_between_iff {α : Type} {p : α → Bool} {left middle right : List α} {x : α}
    (hleft : x ∉ left) (hmem : x ∈ middle) (hx : p x = true) :
    (left ++ (middle ++ right)).find? p = some x ↔
      (¬ ∃ y ∈ left, p y = true) ∧ middle.find? p = some x := by
  rw [List.find?_append, List.find?_append]
  cases hfind : left.find? p with
  | some y =>
    have hy := List.mem_of_find?_eq_some hfind
    rw [Option.some_or]
    constructor
    · intro heq
      cases heq
      exact (hleft hy).elim
    · rintro ⟨hnone, -⟩
      exact (hnone ⟨y, hy, List.find?_some hfind⟩).elim
  | none =>
    have hnone : ¬ ∃ y ∈ left, p y = true := by
      rintro ⟨y, hy, hpy⟩
      exact List.find?_eq_none.mp hfind y hy hpy
    have hsome : middle.find? p ≠ none := fun h => List.find?_eq_none.mp h x hmem hx
    obtain ⟨y, hy⟩ := Option.ne_none_iff_exists'.mp hsome
    rw [hy, Option.none_or, Option.some_or]
    exact ⟨fun h => ⟨hnone, h⟩, And.right⟩

/-- The first plain stem of a node is the natural one unless the node is shadowed. -/
theorem find?_stems (hd : d.IsForest) {before rest : List NodeId} {p parent n : NodeId}
    (hparent : d.HasChild parent n) (hchain : (p :: rest).IsChain d.HasChild)
    (hlast : (p :: rest).getLast? = some n) (hnodup : (before ++ p :: rest).Nodup) {fuel : Nat}
    (hfuel : d.room before.reverse < fuel) :
    ((d.unfoldWithin fuel before.reverse p).stems (plainStem before) false).find? (IsPlain n) =
        some (plainStem (before ++ p :: rest)) ↔ ¬ d.ShadowedBelow before parent (p :: rest) := by
  induction rest generalizing before p fuel with
  | nil =>
    obtain rfl : p = n := by simpa using hlast
    obtain ⟨rest, hrest⟩ :=
      stems_head (plainStem before) false (d.unfoldWithin fuel before.reverse p)
    rw [hrest, node_unfoldWithin, List.find?_cons, isPlain_cons.mpr ⟨rfl, rfl⟩, plainStem_append]
    simp [not_shadowedBelow_singleton]
  | cons c rest ih =>
    obtain ⟨⟨m, hm, hc⟩, hchain'⟩ := List.isChain_cons_cons.mp hchain
    have hp : p ∉ before.reverse := by
      rw [List.mem_reverse]
      exact fun hmem => (List.nodup_append.mp hnodup).2.2 p hmem p List.mem_cons_self rfl
    have hlast' : (c :: rest).getLast? = some n := by rwa [List.getLast?_cons_cons] at hlast
    have hpn : p ≠ n := by
      rintro rfl
      exact (List.nodup_cons.mp (List.nodup_append.mp hnodup).2.1).1 (List.mem_of_getLast? hlast')
    cases fuel with
    | zero => omega
    | succ fuel =>
      have hlt := room_cons_lt hm hp
      have hreverse : (before ++ [p]).reverse = p :: before.reverse := by simp
      have hroom : d.room (before ++ [p]).reverse < fuel := by
        rw [hreverse]
        omega
      have happend : before ++ p :: c :: rest = before ++ [p] ++ c :: rest := by simp
      rw [happend] at hnodup ⊢
      have hmem := plainStem_mem hchain' hnodup hroom
      have hrest := ih hchain' hlast' hnodup hroom
      rw [hreverse, plainStem_append] at hmem hrest
      rw [hreverse] at hroom
      obtain ⟨left, right, hchildren⟩ := List.append_of_mem hc
      have hsplit :
          d.stemsBelow fuel (p :: before.reverse) ((p, false) :: plainStem before) false
            m.children =
          d.stemsBelow fuel (p :: before.reverse) ((p, false) :: plainStem before) false left ++
            ((d.unfoldWithin fuel (p :: before.reverse) c).stems
              ((p, false) :: plainStem before) false ++
            d.stemsBelow fuel (p :: before.reverse) ((p, false) :: plainStem before) false
              right) := by
        rw [hchildren]
        simp [stemsBelow]
      have htop : IsPlain n ((p, false) :: plainStem before) = false := by
        rw [← Bool.not_eq_true, isPlain_cons]
        exact fun h => hpn h.1
      -- The natural stem goes through `c`, not through a node that stands before it.
      have hleft : plainStem (before ++ [p] ++ c :: rest) ∉
          d.stemsBelow fuel (p :: before.reverse) ((p, false) :: plainStem before) false left := by
        intro hstem
        obtain ⟨s, hs, hsuffix⟩ := suffix_of_mem_stemsBelow hstem
        have hsc := (eq_of_suffixes hsuffix (suffix_of_mem_unfoldWithin hmem)).1
        have hchildrenNodup := hd.nodup p m hm
        rw [hchildren] at hchildrenNodup
        exact (List.nodup_append.mp hchildrenNodup).2.2 s hs c List.mem_cons_self hsc
      have hplain : IsPlain n (plainStem (before ++ [p] ++ c :: rest)) = true :=
        isPlain_plainStem (by rw [List.getLast?_append, hlast']; rfl)
      rw [stems_unfoldWithin hp hm, List.find?_cons, htop, hsplit, List.append_assoc,
        List.append_assoc, find?_between_iff hleft hmem hplain, hrest,
        exists_plain_before_iff hd hparent hchain hlast' hm hchildren hroom, shadowedBelow_cons,
        not_or]

/-- A node that stands before the way to a node leads to the node's parent. More exactly: `s` stands
before `m` among the children of `q`, where `q` and `m` follow each other on the way, and leads to
the parent of the last node of the way without passing the way up to `q`. -/
def Shadowed (d : Document) (way : List NodeId) : Prop :=
  ∃ upper q m lower s init parent n, way = upper ++ q :: m :: lower ∧
    way = init ++ [parent, n] ∧ d.Precedes q s m ∧ d.LeadsAround (upper ++ [q]) s parent

theorem shadowed_iff {way init : List NodeId} {parent n : NodeId}
    (hway : way = init ++ [parent, n]) : d.Shadowed way ↔ d.ShadowedBelow [] parent way := by
  constructor
  · rintro ⟨upper, q, m, lower, s, init', parent', n', hsplit, hway', hs, hlead⟩
    rw [hway] at hway'
    have hlast := (List.append_inj' hway' rfl).2
    simp only [List.cons.injEq, and_true] at hlast
    obtain ⟨rfl, rfl⟩ := hlast
    exact ⟨upper, q, m, lower, s, hsplit, hs, hlead⟩
  · rintro ⟨upper, q, m, lower, s, hsplit, hs, hlead⟩
    exact ⟨upper, q, m, lower, s, init, parent, n, hsplit, hway, hs, hlead⟩

/-- The first plain stem of a node in the tree of a document is the natural one unless the node is
shadowed. -/
theorem find?_stemsOf (hd : d.IsForest) {way : List NodeId} {n : NodeId} (hway : d.IsWay way n) :
    plainStem way ∈ ScopeTree.stemsOf d ∧
      ((ScopeTree.stemsOf d).find? (IsPlain n) = some (plainStem way) ↔ ¬ d.Shadowed way) := by
  obtain ⟨hhead, hlast, hchain⟩ := hway
  have hnodup := nodup_of_isChain hd hchain
  have hroom : d.room ([] : List NodeId).reverse < d.size + 1 := Nat.lt_succ_of_le (d.room_le _)
  cases way with
  | nil => cases hhead
  | cons p rest =>
    obtain rfl : p = d.root := by simpa using hhead
    refine ⟨@plainStem_mem _ [] _ _ hchain hnodup _ hroom, ?_⟩
    cases rest with
    | nil =>
      obtain rfl : d.root = n := by simpa using hlast
      obtain ⟨rest, hrest⟩ := stems_head [] false (d.unfold [] d.root)
      have hnot : ¬ d.Shadowed [d.root] := by
        rintro ⟨upper, q, m, lower, s, init, parent, n, hsplit, -⟩
        have hlen := congrArg List.length hsplit
        simp only [List.length_append, List.length_cons, List.length_nil] at hlen
        omega
      rw [ScopeTree.stemsOf, hrest, node_unfold, List.find?_cons, isPlain_cons.mpr ⟨rfl, rfl⟩]
      simp [plainStem, hnot]
    | cons c rest =>
      obtain ⟨init, hinit⟩ := List.getLast?_eq_some_iff.mp hlast
      obtain ⟨init', parent, hparent⟩ : ∃ init' parent, init = init' ++ [parent] := by
        rcases List.eq_nil_or_concat init with rfl | ⟨init', parent, h⟩
        · simp at hinit
        · exact ⟨init', parent, by rw [h, List.concat_eq_append]⟩
      have hway : d.root :: c :: rest = init' ++ [parent, n] := by
        rw [hinit, hparent]
        simp
      have hchild : d.HasChild parent n := by
        rw [hway] at hchain
        exact (List.isChain_cons_cons.mp (List.IsChain.right_of_append hchain)).1
      rw [shadowed_iff hway]
      exact @find?_stems _ hd [] _ _ _ _ hchild hchain hlast hnodup _ hroom

end Document

/-! ## The scope of a node -/

namespace ScopeTree

open Document

variable {d : Document} {way : List NodeId} {n : NodeId}

theorem nodup_stemsOf (hd : d.IsForest) : (stemsOf d).Nodup :=
  nodup_stems hd.nodup _ _ _ _ _

theorem isPlain_of_climbs {t : ScopeTree} {e : ScopeId × ScopeRecord} {stem : Stem}
    (hget : t.arena.get? e.1 = some e.2) (h : t.arena.Climbs e.1 stem) :
    (!e.2.transclusion && e.2.node == n) = IsPlain n stem := by
  obtain ⟨r, hr, hhead⟩ := h.head
  obtain rfl : e.2 = r := Option.some.inj (hget.symm.trans hr)
  rw [IsPlain, hhead]
  cases e.2.transclusion <;> simp

/-- Each stem is the way up from a scope. -/
theorem exists_entry_of_stem {stem : Stem} (h : stem ∈ stemsOf d) :
    ∃ e ∈ (build d).arena.entries, (build d).arena.Climbs e.1 stem := by
  obtain ⟨hlen, hget⟩ := List.forall₂_iff_get.mp (laid_build d).entries
  obtain ⟨i, hi, rfl⟩ := List.getElem_of_mem h
  exact ⟨_, List.getElem_mem (hlen ▸ hi), (hget i (hlen ▸ hi) hi).2⟩

/-- Each scope has its way up among the stems. -/
theorem exists_stem_of_record {y : ScopeId} {r : ScopeRecord} (h : (build d).record? y = some r) :
    ∃ stem ∈ stemsOf d, (build d).arena.Climbs y stem := by
  obtain ⟨hlen, hget⟩ := List.forall₂_iff_get.mp (laid_build d).entries
  obtain ⟨j, hj, hentry⟩ := List.getElem_of_mem (Arena.mem_entries_iff.mpr h)
  have hclimbs := (hget j hj (hlen ▸ hj)).2
  rw [List.get_eq_getElem, hentry] at hclimbs
  exact ⟨_, List.getElem_mem (hlen ▸ hj), hclimbs⟩

section Entry

variable {e : ScopeId × ScopeRecord} {stem : Stem}

/-- No two scopes have the same way up. -/
theorem eq_of_climbs (hd : d.IsForest) {e' : ScopeId × ScopeRecord}
    (he : e ∈ (build d).arena.entries) (he' : e' ∈ (build d).arena.entries)
    (h : (build d).arena.Climbs e.1 stem) (h' : (build d).arena.Climbs e'.1 stem) : e' = e :=
  eq_of_forall₂ (laid_build d).entries (nodup_stemsOf hd) (fun _ _ _ h h' => h.2.unique h'.2)
    he' he ⟨Arena.mem_entries_iff.mp he', h'⟩ ⟨Arena.mem_entries_iff.mp he, h⟩

theorem stem_eq_iff (hd : d.IsForest) (he : e ∈ (build d).arena.entries)
    (h : (build d).arena.Climbs e.1 stem) (hstem : stem ∈ stemsOf d) (y : ScopeId) :
    (build d).stem y = stem ↔ y = e.1 := by
  constructor
  · rintro rfl
    cases hr : (build d).record? y with
    | none =>
      have hnil : (build d).stem y = [] := by
        rw [ScopeTree.stem, upward]
        cases (build d).arena.slots.size with
        | zero => rfl
        | succ fuel => rw [upwardWithin, hr]; rfl
      obtain ⟨flagged, hsuffix⟩ := Blueprint.suffix_of_mem_stems _ hstem
      simp [hnil] at hsuffix
    | some r =>
      obtain ⟨stem', -, hclimbs⟩ := exists_stem_of_record hr
      rw [stem_eq (rooted_build d) hclimbs] at h
      exact congrArg Prod.fst (eq_of_climbs hd he (Arena.mem_entries_iff.mpr hr) h hclimbs)
  · rintro rfl
    exact stem_eq (rooted_build d) h

/-- The search among the scopes finds one just when the search among the stems finds its way up. -/
theorem scopeForNode?_eq_some_iff (hd : d.IsForest) (he : e ∈ (build d).arena.entries)
    (h : (build d).arena.Climbs e.1 stem) :
    (build d).scopeForNode? n = some e.1 ↔ (stemsOf d).find? (IsPlain n) = some stem := by
  have hsearch := find?_of_forall₂ (laid_build d).entries fun e stem h =>
    isPlain_of_climbs (n := n) (t := build d) h.1 h.2
  rw [scopeForNode?_eq_find]
  rcases hsearch with ⟨hl, hr⟩ | ⟨e', stem', hl, hr, -, hclimbs⟩
  · simp [hl, hr]
  · rw [hl, hr, Option.map_some, Option.some.injEq, Option.some.injEq]
    constructor
    · intro heq
      rw [heq] at hclimbs
      exact hclimbs.unique h
    · rintro rfl
      rw [eq_of_climbs hd he (List.mem_of_find?_eq_some hl) h hclimbs]

theorem isSome_scopeForNode? (he : e ∈ (build d).arena.entries)
    (h : (build d).arena.Climbs e.1 stem) (hplain : IsPlain n stem = true) :
    ((build d).scopeForNode? n).isSome = true := by
  rw [scopeForNode?_eq_find, Option.isSome_map, List.find?_isSome]
  exact ⟨e, he, (isPlain_of_climbs (Arena.mem_entries_iff.mp he) h).trans hplain⟩

end Entry

/-- In the tree of a forest exactly one scope stands at the natural place of a node: its way up is
the way down to the node, without references. It is the scope that is found for the node, and the
first of all its scopes, just when the node is not shadowed. -/
theorem scopeForNode?_natural_iff (hd : d.IsForest) (hway : d.IsWay way n) :
    ∃ x, (∀ y, (build d).stem y = plainStem way ↔ y = x) ∧
      ((build d).scopeForNode? n = some x ↔ ¬ d.Shadowed way) ∧
      (((build d).scopesForNode n).head? = some x ↔ ¬ d.Shadowed way) := by
  obtain ⟨hmem, hfind⟩ := find?_stemsOf hd hway
  obtain ⟨e, he, hclimbs⟩ := exists_entry_of_stem hmem
  have hfound := (scopeForNode?_eq_some_iff hd he hclimbs).trans hfind
  refine ⟨e.1, stem_eq_iff hd he hclimbs hmem, hfound, ?_⟩
  have hsome := isSome_scopeForNode? he hclimbs (isPlain_plainStem hway.last)
  obtain ⟨y, hy⟩ := Option.isSome_iff_exists.mp hsome
  rw [head?_scopesForNode hy, ← hfound, hy]

/-- The outline of a document that refers to a node before the node stands at its own place, and
the document. -/
def borrowingOutline : String := "- [a] \x7b#[b]\x7d\n- [b] x\n  - [c] y\n"

def borrowing : Document :=
  ⟨"root",
    [⟨"root", "", ["a", "b"]⟩, ⟨"a", "\x7b#[b]\x7d", []⟩, ⟨"b", "x", ["c"]⟩, ⟨"c", "y", []⟩], 0⟩

theorem ofOutline_borrowing :
    ofOutline .start borrowingOutline.toList = .ok (borrowing, .start) := by
  cbv

theorem isWay_borrowing : borrowing.IsWay ["root", "b", "c"] "c" := by
  refine ⟨rfl, rfl, List.isChain_cons_cons.mpr ⟨⟨_, rfl, ?_⟩, List.isChain_cons_cons.mpr
    ⟨⟨_, rfl, ?_⟩, List.isChain_singleton _⟩⟩⟩ <;> decide

/-- The scope that is found for `c` is the copy below the reference to `b`, although another scope
stands at the natural place of `c`. -/
theorem scopeForNode?_not_natural :
    ofOutline .start borrowingOutline.toList = .ok (borrowing, .start) ∧
      borrowing.IsWay ["root", "b", "c"] "c" ∧
      (build borrowing).stem ⟨5, 0⟩ = plainStem ["root", "b", "c"] ∧
      (build borrowing).scopeForNode? "c" = some ⟨3, 0⟩ ∧
      ((build borrowing).scopesForNode "c").head? = some ⟨3, 0⟩ ∧
      (build borrowing).stem ⟨3, 0⟩ = [("c", false), ("b", true), ("a", false), ("root", false)] :=
  ⟨ofOutline_borrowing, isWay_borrowing, by cbv, by cbv, by cbv, by cbv⟩

/-- The scope of `b` itself is the natural one, since only a reference leads to `b`. -/
theorem scopeForNode?_natural_borrowing :
    borrowing.IsForest ∧ borrowing.IsWay ["root", "b"] "b" ∧
      ∃ x, (∀ y, (build borrowing).stem y = plainStem ["root", "b"] ↔ y = x) ∧
        ((build borrowing).scopeForNode? "b" = some x ↔ ¬ borrowing.Shadowed ["root", "b"]) ∧
        (((build borrowing).scopesForNode "b").head? = some x ↔
          ¬ borrowing.Shadowed ["root", "b"]) := by
  have hforest : borrowing.IsForest := isForest_ofOutline ofOutline_borrowing
  have hway : borrowing.IsWay ["root", "b"] "b" :=
    ⟨rfl, rfl, List.isChain_cons_cons.mpr ⟨⟨_, rfl, by decide⟩, List.isChain_singleton _⟩⟩
  exact ⟨hforest, hway, scopeForNode?_natural_iff hforest hway⟩

end ScopeTree

end FormulaOutline
