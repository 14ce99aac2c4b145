import FormulaOutline.Proofs.Document.Operations
import Mathlib.Logic.Function.Iterate

/-!
# Parents and places after a change

In a forest the parent of a node is told by the lists of children alone. What a change does to these
lists decides what it does to parents, to the ways up and to the outline.

* `Tidy.count_children`: how often a node stands among the children of another one.
* `Tidy.parent?_detach`, `Tidy.parent?_insert`: only the moved node gets another parent.
* `Tidy.isSelfOrAncestor_iff`, `Tidy.climb_eq_none`: all ways up end.
* `Tidy.outlineBelow_eq`: the outline of a forest is finite.
* `Tidy.insertChild_eq`: when a node can be put below another one, and what becomes of the rest.
-/

namespace FormulaOutline

/-- A node after a child is put below a parent: it has lost the child, wherever that stood, and the
parent has got it at the place, or at the end if there are fewer children. -/
def Node.afterInsert (n : Node) (parent : NodeId) (index : Nat) (child : NodeId) : Node :=
  let others := n.children.filter (· != child)
  { n with children :=
      if n.id = parent then others.insertIdx (min index others.length) child else others }

namespace Document

open Relation

variable {d d' : Document} {p q c x : NodeId} {index : Nat}

theorem contains_iff : d.contains x = true ↔ ∃ n, d.node? x = some n := by
  rw [contains, List.any_eq_true, ← Option.isSome_iff_exists, node?, List.find?_isSome]

theorem contains_iff_mem : d.contains x = true ↔ x ∈ d.nodes.map Node.id := by
  simp [contains]

theorem find_eq_ok {n : Node} : d.find x = .ok n ↔ d.node? x = some n := by
  rw [find]
  split <;> simp_all

theorem find_eq_error (h : d.contains x = false) : d.find x = .error (.nodeNotFound x) := by
  rw [find]
  split
  · rename_i n hn
    rw [contains_iff.mpr ⟨n, hn⟩] at h
    cases h
  · rfl

theorem Tidy.update_eq_self (hd : d.Tidy) {f : Node → Node} {n : Node} (hn : d.node? x = some n)
    (hf : f n = n) : d.update x f = d := by
  have hNodes : d.nodes.map (fun m => if m.id = x then f m else m) = d.nodes := by
    refine (List.map_congr_left fun m hm => ?_).trans (List.map_id d.nodes)
    split
    · rename_i hId
      have hFound := node?_of_mem hd.ids hm
      rw [hId, hn, Option.some.injEq] at hFound
      rw [← hFound, hf]
      rfl
    · rfl
  rw [update, hNodes]

/-! ## Parents -/

/-- In a forest a node stands once among the children of its parent and nowhere else. -/
theorem Tidy.count_children (hd : d.Tidy) {n : Node} (hn : d.node? p = some n) (c : NodeId) :
    n.children.count c = if d.parent? c = some p then 1 else 0 := by
  split
  · rename_i hp
    obtain ⟨m, hm, hc⟩ := hd.parent?_eq_some_iff.mp hp
    obtain rfl : n = m := Option.some.inj (hn.symm.trans hm)
    exact List.count_eq_one_of_mem (hd.forest.nodup p n hn) hc
  · rename_i hp
    exact List.count_eq_zero.mpr fun hc => hp (hd.parent?_eq_some_iff.mpr ⟨n, hn, hc⟩)

theorem parent?_append (id : NodeId) (value : String) : (d.append id value).parent? c = d.parent? c := by
  have hNew : [(⟨id, value, []⟩ : Node)].find? (·.children.contains c) = none := by simp
  rw [parent?, parent?, append, List.find?_append, hNew, Option.or_none]

theorem parent?_setValue (id : NodeId) (value : String) :
    (d.update id fun n => { n with value }).parent? c = d.parent? c := by
  have hSame : ∀ n : Node, (if n.id = id then { n with value } else n).children = n.children := by
    intro n
    split <;> rfl
  have hId : ∀ n : Node, (if n.id = id then { n with value } else n).id = n.id := by
    intro n
    split <;> rfl
  rw [parent?, parent?, update, List.find?_map, Option.map_map]
  congr 1
  · funext n
    exact hId n
  · congr 1
    funext n
    rw [Function.comp_apply, hSame]

theorem Tidy.parent?_detach (hd : d.Tidy) (child : NodeId) :
    (d.detach child).parent? c = if c = child then none else d.parent? c := by
  apply Option.ext
  intro p
  rw [(hd.detach child).parent?_eq_some_iff, hd.hasChild_detach]
  split
  · simp_all
  · rw [hd.parent?_eq_some_iff]
    simp_all

theorem Tidy.parent?_insert (hd : d.Tidy) {parent child : NodeId}
    (h : d.insertChild parent index child = .ok d') :
    d'.parent? c = if c = child then some parent else d.parent? c := by
  have hd' := hd.insertChild h
  obtain ⟨hParent, -, rfl⟩ := insertChild_eq_ok h
  have hChild := fun p => hd.hasChild_insert (p := p) (c := c) child index hParent
  apply Option.ext
  intro p
  rw [hd'.parent?_eq_some_iff]
  refine (hChild p).trans ?_
  split
  · rename_i hc
    simp [hc, eq_comm]
  · rename_i hc
    simp [hc, hd.parent?_eq_some_iff]

/-! ## Ways up -/

theorem transGen_of_mem_parentChain (hd : d.Tidy) {fuel : Nat} (h : x ∈ d.parentChain fuel c) :
    TransGen d.HasChild x c := by
  induction fuel generalizing c with
  | zero => cases h
  | succ fuel ih =>
    rw [parentChain] at h
    split at h
    · rename_i p hp
      have hChild := hd.parent?_eq_some_iff.mp hp
      rcases List.mem_cons.mp h with rfl | h
      · exact .single hChild
      · exact (ih h).tail hChild
    · cases h

theorem Tidy.isSelfOrAncestor_iff (hd : d.Tidy) :
    d.isSelfOrAncestor x c = true ↔ ReflTransGen d.HasChild x c := by
  constructor
  · intro h
    rw [Document.isSelfOrAncestor, Bool.or_eq_true, beq_iff_eq, List.contains_iff_mem] at h
    rcases h with rfl | h
    · exact .refl
    · exact (transGen_of_mem_parentChain hd h).to_reflTransGen
  · exact hd.isSelfOrAncestor

/-- Going up as often as there are nodes, and once more, leaves the document. -/
theorem Tidy.climb_eq_none (hd : d.Tidy) (c : NodeId) :
    (Option.bind · d.parent?)^[d.size + 1] (some c) = none := by
  have hPath : ∀ k c, (Option.bind · d.parent?)^[k] (some c) ≠ none →
      ∃ path : List NodeId, path.length = k ∧ (c :: path).IsChain fun u v => d.HasChild v u := by
    intro k
    induction k with
    | zero => exact fun c _ => ⟨[], rfl, List.isChain_singleton c⟩
    | succ k ih =>
      intro c h
      rw [Function.iterate_succ_apply, Option.bind_some] at h
      cases hp : d.parent? c with
      | none =>
        rw [hp, Function.iterate_fixed rfl] at h
        exact absurd rfl h
      | some p =>
        rw [hp] at h
        obtain ⟨path, hLength, hChain⟩ := ih p h
        exact ⟨p :: path, by simp [hLength],
          List.isChain_cons_cons.mpr ⟨hd.parent?_eq_some_iff.mp hp, hChain⟩⟩
  by_contra hSome
  obtain ⟨path, hLength, hChain⟩ := hPath _ c hSome
  have hLe := hd.length_le_of_isChain hChain
  omega

/-! ## Outlines -/

/-- Below the nodes of a path there are no more levels than other nodes. -/
theorem Tidy.outlineBelow_of_room (hd : d.Tidy) {path : List NodeId} {fuel fuel' : Nat}
    (hPath : ∀ y ∈ path, TransGen d.HasChild y x) (h : d.room path ≤ fuel)
    (h' : d.room path ≤ fuel') (level : Nat) :
    d.outlineBelow fuel level x = d.outlineBelow fuel' level x := by
  induction fuel generalizing path x level fuel' with
  | zero =>
    cases hx : d.node? x with
    | none => cases fuel' <;> simp [outlineBelow, hx]
    | some n =>
      have hLess := room_cons_lt hx fun hMem => hd.forest.acyclic x (hPath x hMem)
      omega
  | succ fuel ih =>
    cases hx : d.node? x with
    | none => cases fuel' <;> simp [outlineBelow, hx]
    | some n =>
      have hLess := room_cons_lt hx fun hMem => hd.forest.acyclic x (hPath x hMem)
      obtain ⟨fuel', rfl⟩ : ∃ k, fuel' = k + 1 := ⟨fuel' - 1, by omega⟩
      rw [outlineBelow, outlineBelow, hx]
      have hChildren : n.children.map (d.outlineBelow fuel (level + 1)) =
          n.children.map (d.outlineBelow fuel' (level + 1)) := by
        refine List.map_congr_left fun c hc => ?_
        refine @ih c (x :: path) fuel' ?_ (by omega) (by omega) (level + 1)
        intro y hy
        rcases List.mem_cons.mp hy with rfl | hy
        · exact .single ⟨n, hx, hc⟩
        · exact (hPath y hy).tail ⟨n, hx, hc⟩
      simp only [hChildren]

/-- An outline has no more levels than the document has nodes. -/
theorem Tidy.outlineBelow_eq (hd : d.Tidy) {fuel : Nat} (h : d.size ≤ fuel) (level : Nat)
    (x : NodeId) : d.outlineBelow fuel level x = d.outlineBelow d.size level x := by
  have hNone : ∀ y ∈ ([] : List NodeId), TransGen d.HasChild y x := by simp
  exact hd.outlineBelow_of_room hNone ((d.room_le []).trans h) (d.room_le []) level

/-! ## Insertions -/

theorem insertIdx_min (l : List NodeId) (index : Nat) (child : NodeId) :
    l.insertIdx (min index l.length) child = l.take index ++ child :: l.drop index := by
  induction l generalizing index with
  | nil => simp
  | cons c l ih =>
    cases index with
    | zero => simp
    | succ index => simp [ih, Nat.add_min_add_right]

theorem Tidy.node?_detach (hd : d.Tidy) (child : NodeId) :
    (d.detach child).node? x = (d.node? x).map (·.without child) := by
  have hAlone : ∀ n, d.node? x = some n → d.parent? child ≠ some x → n.without child = n := by
    intro n hn hp
    have hCount := hd.count_children hn child
    rw [if_neg hp, List.count_eq_zero] at hCount
    rw [Node.without, List.filter_eq_self.mpr]
    intro c hc
    rw [bne_iff_ne]
    rintro rfl
    exact hCount hc
  unfold Document.detach
  split
  · rename_i q hq
    rw [node?_update (f := (·.without child)) fun _ => rfl]
    refine Option.map_congr fun n hn => ?_
    rw [id_of_node? hn]
    split
    · rfl
    · rename_i hne
      rw [hAlone n hn]
      rw [hq, Ne, Option.some.injEq]
      exact fun h => hne h.symm
  · rename_i hq
    cases hn : d.node? x with
    | none => rfl
    | some n => rw [Option.map_some, hAlone n hn (by simp [hq])]

/-- A node can be put below another one if both are there and the first is not above the second. -/
theorem Tidy.insertChild_eq_ok_iff (hd : d.Tidy) (index : Nat) : (∃ d', d.insertChild p index c = .ok d') ↔
    d.contains p = true ∧ d.contains c = true ∧ ¬ ReflTransGen d.HasChild c p := by
  constructor
  · rintro ⟨d', h⟩
    obtain ⟨hParent, hNot, -⟩ := insertChild_eq_ok h
    refine ⟨contains_iff.mpr hParent, ?_, ?_⟩
    · by_contra hNone
      obtain ⟨n, hn⟩ := hParent
      rw [Document.insertChild, find_eq_ok.mpr hn, find_eq_error (by simpa using hNone)] at h
      cases h
    · rw [← hd.isSelfOrAncestor_iff, hNot]
      exact Bool.false_ne_true
  · rintro ⟨hp, hc, hNot⟩
    obtain ⟨n, hn⟩ := contains_iff.mp hp
    obtain ⟨m, hm⟩ := contains_iff.mp hc
    rw [← hd.isSelfOrAncestor_iff] at hNot
    refine ⟨((d.detach c).update p (·.withChild index c)).bump, ?_⟩
    rw [Document.insertChild, find_eq_ok.mpr hn, find_eq_ok.mpr hm]
    exact if_neg hNot

theorem Tidy.node?_insert (hd : d.Tidy) (h : d.insertChild p index c = .ok d') :
    d'.node? x = (d.node? x).map (·.afterInsert p index c) := by
  obtain ⟨-, -, rfl⟩ := insertChild_eq_ok h
  change ((d.detach c).update p (·.withChild index c)).node? x = _
  rw [node?_update (f := (·.withChild index c)) fun _ => rfl, hd.node?_detach, Option.map_map]
  congr 1
  funext n
  rw [Function.comp_apply, Node.afterInsert]
  change (if n.id = p then _ else _) = _
  split
  · rw [insertIdx_min]
    rfl
  · rfl

theorem insert_frame (h : d.insertChild p index c = .ok d') :
    d'.root = d.root ∧ d'.nodes.map Node.id = d.nodes.map Node.id ∧ d'.version = d.version + 1 := by
  obtain ⟨-, -, rfl⟩ := insertChild_eq_ok h
  have hIds : ((d.detach c).update p (·.withChild index c)).nodes.map Node.id =
      d.nodes.map Node.id := by
    rw [ids_update (f := (·.withChild index c)) fun _ => rfl, Document.detach]
    split
    · rw [ids_update (f := (·.without c)) fun _ => rfl]
    · rfl
  have hSame : (d.detach c).root = d.root ∧ (d.detach c).version = d.version := by
    rw [Document.detach]
    split <;> exact ⟨rfl, rfl⟩
  exact ⟨hSame.1, hIds, congrArg (· + 1) hSame.2⟩

/-! ## Other operations -/

theorem removeChild_eq_ok (h : d.removeChild p c = .ok d') :
    d' = (d.update p (·.without c)).bump := by
  rw [Document.removeChild] at h
  cases hp : d.find p with
  | error e =>
    rw [hp] at h
    cases h
  | ok n =>
    simp only [hp, bind, Except.bind] at h
    split at h
    · cases h
      rfl
    · cases h

theorem setValue_eq_ok {value : String} (h : d.setValue x value = .ok d') :
    d' = (d.update x fun n => { n with value }).bump := by
  rw [Document.setValue] at h
  cases hx : d.find x with
  | error e =>
    rw [hx] at h
    cases h
  | ok n =>
    simp only [hx, bind, Except.bind] at h
    cases h
    rfl

theorem addChild_eq_ok {value : String} (h : d.addChild p x value = .ok d') :
    ∃ n, (d.append x value).insertChild p n x = .ok d' := by
  rw [Document.addChild] at h
  split at h
  · cases h
  · cases hp : d.find p with
    | error e =>
      rw [hp] at h
      cases h
    | ok n =>
      simp only [hp, bind, Except.bind] at h
      exact ⟨_, h⟩

theorem addChild_of_add {draft draft' : Draft} {level : Nat} {id : NodeId} {text : String}
    (h : draft.add level id text = .ok draft') :
    ∃ p, draft.document.addChild p id text = .ok draft'.document := by
  unfold Draft.add at h
  split at h
  · cases h
  · rename_i parent _
    cases ha : draft.document.addChild parent id text with
    | error e =>
      rw [ha] at h
      cases h
    | ok document =>
      rw [ha] at h
      cases h
      exact ⟨parent, ha⟩

/-- A line of an outline is added below another node. -/
theorem addChild_of_readLine {draft draft' : Draft} {number : Nat} {line : List Char}
    (h : draft.readLine number line = .ok draft') :
    ∃ p id text, draft.document.addChild p id text = .ok draft'.document := by
  unfold Draft.readLine at h
  simp only at h
  split at h
  · cases h
  · split at h
    · cases h
    · split at h
      · cases h
      · split at h
        · split at h
          · cases h
          · obtain ⟨p, hp⟩ := addChild_of_add h
            exact ⟨p, _, _, hp⟩
        · obtain ⟨p, hp⟩ := addChild_of_add h
          exact ⟨p, _, _, hp⟩

end Document

end FormulaOutline
