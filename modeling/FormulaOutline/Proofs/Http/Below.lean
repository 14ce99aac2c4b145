import FormulaOutline.Http.Address
import FormulaOutline.Proofs.Text.Percent
import Mathlib.Data.List.TakeDrop
import Mathlib.Data.List.TakeWhile

/-!
# Addresses below an address

The path of a service is continued by a slash and more parts. If neither a query nor a fragment has
begun, an address so continued is read as the service is, and goes on from where the path of the service
has led.

* `HasNoQuery`: addresses in which neither a query nor a fragment begins.
* `exists_read?_below`: what is read of all addresses below one that has a host.
* `follow_encodeSegment`: a written text is a part like any other, unless it is one or two points.
* `reached`, `read?_named`: where a collection and a written text below it lead to.
-/

namespace FormulaOutline.Http.Address

open Text

variable {base front rest s t : List Char} {dir before : List (List Char)} {a : Address}

/-! ## Characters -/

/-- A character of what may follow an address: it stands for itself in a path and ends no scheme. -/
def IsBelow (c : Char) : Prop := isPathChar c = true ∧ c ≠ ':'

/-- Neither a query nor a fragment begins in an address. -/
def HasNoQuery (s : List Char) : Prop := ∀ c ∈ s, endsPath c = false

theorem IsBelow.isVisible {c : Char} (h : IsBelow c) : isVisible c = true :=
  (Bool.and_eq_true_iff.mp h.1).1

theorem isMargin_of_isVisible {c : Char} (h : isVisible c = true) : isMargin c = false := by
  simp only [Address.isVisible, Bool.and_eq_true, decide_eq_true_eq] at h
  simp only [isMargin, decide_eq_false_iff_not]
  omega

theorem isIgnored_of_isVisible {c : Char} (h : isVisible c = true) : isIgnored c = false := by
  rw [← Bool.not_eq_true]
  intro hIgnored
  simp only [isIgnored, Bool.or_eq_true, beq_iff_eq] at hIgnored
  rcases hIgnored with (rfl | rfl) | rfl <;> cases h

theorem IsBelow.endsPath {c : Char} (h : IsBelow c) : endsPath c = false := by
  rw [← Bool.not_eq_true]
  intro hEnds
  simp only [Address.endsPath, Bool.or_eq_true, beq_iff_eq] at hEnds
  rcases hEnds with rfl | rfl <;> cases h.1

/-! ## Cutting before a slash -/

theorem takeWhile_append_cons {p : Char → Bool} {x : Char} (h : p x = false) :
    (s ++ x :: t).takeWhile p = s.takeWhile p := by
  rw [List.takeWhile_append, List.takeWhile_cons_of_neg (by simp [h]), List.append_nil]
  split
  · next hAll => exact ((List.takeWhile_prefix p).eq_of_length hAll).symm
  · rfl

theorem dropWhile_append_cons {p : Char → Bool} {x : Char} (h : p x = false) :
    (s ++ x :: t).dropWhile p = s.dropWhile p ++ x :: t := by
  rw [List.dropWhile_append, List.dropWhile_cons_of_neg (by simp [h])]
  split
  · next hNone => rw [List.isEmpty_iff.mp hNone, List.nil_append]
  · rfl

theorem span_append_cons {p : Char → Bool} {x : Char} (h : p x = false) :
    (s ++ x :: t).span p = (s.takeWhile p, s.dropWhile p ++ x :: t) := by
  rw [List.span_eq_takeWhile_dropWhile, takeWhile_append_cons h, dropWhile_append_cons h]

/-! ## Reading on -/

/-- Only the front of an address is cleaned of its margin. -/
theorem clean_below (hRest : ∀ c ∈ rest, IsBelow c) :
    clean (base ++ '/' :: rest) = (base.dropWhile isMargin).filter (!isIgnored ·) ++ '/' :: rest := by
  have hVisible : ∀ c ∈ '/' :: rest, isVisible c = true :=
    List.forall_mem_cons.mpr ⟨rfl, fun c hc => (hRest c hc).isVisible⟩
  obtain ⟨last, init, hLast⟩ := List.exists_cons_of_ne_nil
    (List.reverse_ne_nil_iff.mpr (List.cons_ne_nil '/' rest))
  have hMargin : isMargin last = false := by
    refine isMargin_of_isVisible (hVisible last (List.mem_reverse.mp ?_))
    rw [hLast]
    exact List.mem_cons_self
  -- The end is visible, so nothing is taken off there.
  have hBack : ∀ s : List Char, ((s ++ '/' :: rest).reverse.dropWhile isMargin).reverse =
      s ++ '/' :: rest := by
    intro s
    rw [List.reverse_append, hLast, List.cons_append, List.dropWhile_cons_of_neg (by simp [hMargin]),
      ← List.cons_append, ← hLast, ← List.reverse_append, List.reverse_reverse]
  have hKept : ('/' :: rest).filter (!isIgnored ·) = '/' :: rest :=
    List.filter_eq_self.mpr fun c hc => by rw [isIgnored_of_isVisible (hVisible c hc), Bool.not_false]
  rw [clean, dropWhile_append_cons rfl, hBack, List.filter_append, hKept]

theorem forall_bne_of_not_mem {x : Char} (h : x ∉ s) : ∀ c ∈ s, (c != x) = true := by
  intro c hc
  rw [bne_iff_ne]
  rintro rfl
  exact h hc

theorem afterScheme?_colon (h : ':' ∉ s) :
    afterScheme? (s ++ ':' :: t) =
      if s.map Char.toLower = "http".toList ∨ s.map Char.toLower = "https".toList then
        some (t.dropWhile isSlash)
      else none := by
  have hAll := forall_bne_of_not_mem h
  rw [afterScheme?, span_append_cons rfl, List.takeWhile_eq_self_iff.mpr hAll,
    List.dropWhile_eq_nil_iff.mpr hAll, List.nil_append]
  rfl

theorem afterScheme?_of_not_mem (h : ':' ∉ s) : afterScheme? s = none := by
  have hAll := forall_bne_of_not_mem h
  rw [afterScheme?, List.span_eq_takeWhile_dropWhile, List.dropWhile_eq_nil_iff.mpr hAll]

/-- Behind the scheme, all addresses below one that has a host begin alike. -/
theorem exists_afterScheme? (h : afterScheme? (front ++ ['/']) = some s) (hHost : s ≠ []) :
    ∃ t, (∀ c ∈ t, c ∈ front) ∧
      ∀ rest, ':' ∉ rest → afterScheme? (front ++ '/' :: rest) = some (t ++ '/' :: rest) := by
  by_cases hColon : ':' ∈ front
  · -- The first colon ends the scheme. Slashes behind it are skipped, up to the host.
    obtain ⟨scheme, after, rfl, hScheme⟩ := List.eq_append_cons_of_mem hColon
    rw [List.append_assoc, List.cons_append, afterScheme?_colon hScheme] at h
    split at h
    · next hName =>
      have hAfter : after.dropWhile isSlash ≠ [] := by
        intro hNone
        rw [List.dropWhile_append, hNone] at h
        exact hHost (Option.some.inj h).symm
      refine ⟨after.dropWhile isSlash, fun c hc => ?_, fun rest _ => ?_⟩
      · exact List.mem_append_right _ (List.mem_cons_of_mem _ (List.dropWhile_subset isSlash hc))
      · have hIf : (after.dropWhile isSlash).isEmpty = false := List.isEmpty_eq_false_iff.mpr hAfter
        rw [List.append_assoc, List.cons_append, afterScheme?_colon hScheme, if_pos hName,
          List.dropWhile_append, hIf]
        rfl
    · cases h
  · have hNone : ':' ∉ front ++ ['/'] := by simp [hColon]
    rw [afterScheme?_of_not_mem hNone] at h
    cases h

/-- A character of a host. -/
def isHostChar (c : Char) : Bool := !isSlash c && !endsPath c

theorem read?_of_afterScheme? (hAfter : afterScheme? (clean s) = some (front ++ '/' :: rest))
    (hFront : HasNoQuery front) (hRest : HasNoQuery rest) :
    read? s = if isHost (front.takeWhile isHostChar) then
      some ⟨pathParts (front.dropWhile isHostChar ++ '/' :: rest), none⟩ else none := by
  have hHost : (front ++ '/' :: rest).span (fun c => !isSlash c && !endsPath c) =
      (front.takeWhile isHostChar, front.dropWhile isHostChar ++ '/' :: rest) :=
    span_append_cons (p := isHostChar) rfl
  have hPath : ∀ c ∈ front.dropWhile isHostChar ++ '/' :: rest, (!endsPath c) = true := by
    intro c hc
    rw [Bool.not_eq_true']
    rcases List.mem_append.mp hc with hc | hc
    · exact hFront c (List.dropWhile_subset _ hc)
    · rcases List.mem_cons.mp hc with rfl | hc
      · rfl
      · exact hRest c hc
  rw [read?, hAfter]
  simp only [Option.bind_eq_bind, Option.bind_some]
  rw [hHost, List.span_eq_takeWhile_dropWhile, List.takeWhile_eq_self_iff.mpr hPath,
    List.dropWhile_eq_nil_iff.mpr hPath]

/-! ## Following on -/

theorem followAll_append (before : List (List Char)) (parts : List (List Char))
    {more : List (List Char)} (hMore : more ≠ []) :
    followAll before (parts ++ more) =
      followAll (parts.foldl (follow · · false) before) more := by
  induction parts generalizing before with
  | nil => rfl
  | cons part parts ih =>
    obtain ⟨next, after, hNext⟩ := List.exists_cons_of_ne_nil
      (List.append_ne_nil_of_right_ne_nil parts hMore)
    rw [List.foldl_cons, ← ih, List.cons_append, hNext, followAll]
    exact List.cons_ne_nil next after

theorem exists_pathParts (hHead : ∀ c ∈ front.head?, isSlash c = true) :
    ∃ before, ∀ rest, pathParts (front ++ '/' :: rest) =
      (followAll before (rest.splitOnP isSlash)).reverse.map (percentEncode isPathChar) := by
  cases front with
  | nil => exact ⟨[], fun rest => rfl⟩
  | cons c after =>
    refine ⟨(after.splitOnP isSlash).foldl (follow · · false) [], fun rest => ?_⟩
    have hSlash : isSlash c = true := hHead c rfl
    rw [pathParts, List.cons_append, List.head?_cons, Option.map_some, hSlash]
    simp only [Option.getD_some, if_true, List.tail_cons]
    rw [List.splitOnP_append_cons _ _ (by rfl), followAll_append _ _ (List.splitOnP_ne_nil _ _)]

/-- All addresses below one that is read are read as it is, and go on from the same place. -/
theorem exists_read?_below (hBase : HasNoQuery base) (h : read? (base ++ ['/']) = some a) :
    ∃ before, ∀ rest, (∀ c ∈ rest, IsBelow c) →
      read? (base ++ '/' :: rest) =
        some ⟨(followAll before (rest.splitOnP isSlash)).reverse.map (percentEncode isPathChar),
          none⟩ := by
  have hClean : clean (base ++ ['/']) = (base.dropWhile isMargin).filter (!isIgnored ·) ++ ['/'] :=
    clean_below (List.forall_mem_nil _)
  obtain ⟨s, hAfter, hHost⟩ : ∃ s, afterScheme? (clean (base ++ ['/'])) = some s ∧ s ≠ [] := by
    cases hAfter : afterScheme? (clean (base ++ ['/'])) with
    | none =>
      rw [read?, hAfter] at h
      cases h
    | some s =>
      refine ⟨s, rfl, ?_⟩
      rintro rfl
      rw [read?, hAfter] at h
      cases h
  rw [hClean] at hAfter
  obtain ⟨front, hFront, hBelow⟩ := exists_afterScheme? hAfter hHost
  have hNoQuery : HasNoQuery front := fun c hc =>
    hBase c (List.dropWhile_subset _ (List.mem_filter.mp (hFront c hc)).1)
  have hRead : ∀ rest, (∀ c ∈ rest, IsBelow c) → read? (base ++ '/' :: rest) =
      if isHost (front.takeWhile isHostChar) then
        some ⟨pathParts (front.dropWhile isHostChar ++ '/' :: rest), none⟩ else none := by
    intro rest hRest
    refine read?_of_afterScheme? ?_ hNoQuery fun c hc => (hRest c hc).endsPath
    rw [clean_below hRest]
    exact hBelow rest fun hColon => (hRest _ hColon).2 rfl
  have hIsHost : isHost (front.takeWhile isHostChar) = true := by
    rw [hRead [] (List.forall_mem_nil _)] at h
    by_contra hNot
    rw [if_neg hNot] at h
    cases h
  have hHead : ∀ c ∈ (front.dropWhile isHostChar).head?, isSlash c = true := by
    intro c hc
    have hStop := List.head?_dropWhile_not isHostChar front
    rw [Option.mem_def.mp hc] at hStop
    have hInside := hNoQuery c (List.dropWhile_subset _ (List.mem_of_mem_head? hc))
    simpa [isHostChar, hInside] using hStop
  obtain ⟨before, hParts⟩ := exists_pathParts hHead
  refine ⟨before, fun rest hRest => ?_⟩
  rw [hRead rest hRest, if_pos hIsHost, hParts]

/-! ## Written texts as parts -/

/-- An escaped point stands for the same as a point. -/
theorem decodeSegment?_unescapePoints (h : Escaped s) :
    decodeSegment? (unescapePoints s) = decodeSegment? s := by
  -- Only an escape that begins with a 2 can be one of a point.
  have hBytes : percentDecode? (unescapePoints s) = percentDecode? s := by
    induction h with
    | nil => rfl
    | @unreserved c rest hChar _ ih =>
      have hSign : c ≠ '%' := by
        rintro rfl
        cases hChar
      have hNext : unescapePoints (c :: rest) = c :: unescapePoints rest := by
        simp [unescapePoints, hSign]
      rw [hNext, percentDecode?_cons hSign, percentDecode?_cons hSign, ih]
    | @escape high low rest hHigh hLow _ ih =>
      by_cases hTwo : high = '2'
      · subst hTwo
        rw [unescapePoints]
        split
        · next hPoint =>
          have hByte : escapedByte? '2' low = some 0x2E := by
            rcases hPoint with rfl | rfl <;> rfl
          rw [percentDecode?_cons (by decide), percentDecode?_escape hByte, ih]
          rfl
        · rw [percentDecode?, percentDecode?, ih]
      · have hHighSign : high ≠ '%' := by
          rintro rfl
          cases hHigh
        have hLowSign : low ≠ '%' := by
          rintro rfl
          cases hLow
        have hNext : unescapePoints ('%' :: high :: low :: rest) =
            '%' :: high :: low :: unescapePoints rest := by
          simp [unescapePoints, hTwo, hHighSign, hLowSign]
        rw [hNext, percentDecode?, percentDecode?, ih]
  rw [decodeSegment?, decodeSegment?, hBytes]

/-- A written text is a part like any other, unless it is one or two points. -/
theorem follow_encodeSegment (hPoint : s ≠ ['.']) (hPoints : s ≠ ['.', '.'])
    (before : List (List Char)) (isLast : Bool) :
    follow before (encodeSegment s) isLast = encodeSegment s :: before := by
  have hSame := decodeSegment?_unescapePoints (escaped_encodeSegment s)
  rw [decodeSegment?_encodeSegment] at hSame
  rw [follow]
  split
  · next h =>
    rw [h] at hSame
    exact absurd (Option.some.inj (hSame.symm.trans (decodeSegment?_encodeSegment ['.']))) hPoint
  · next h =>
    rw [h] at hSame
    exact absurd (Option.some.inj (hSame.symm.trans (decodeSegment?_encodeSegment ['.', '.']))) hPoints
  · rfl

theorem isBelow_of_escaped (h : Escaped s) {c : Char} (hc : c ∈ s) :
    IsBelow c ∧ isSlash c = false := by
  have hAll : (isPathChar c && c != ':' && !isSlash c) = true := by
    rcases h.unreserved_or_sign hc with hChar | rfl
    · exact of_isUnreserved (p := fun c => isPathChar c && c != ':' && !isSlash c)
        (by decide +kernel) hChar
    · rfl
  simpa [IsBelow, and_assoc] using hAll

/-- Where a collection and a name in it lead to. One point leads to the collection itself, and two lead
out of it. -/
def reached (collection name : List Char) : List (List Char) :=
  if name = ['.'] then [encodeSegment collection, []]
  else if name = ['.', '.'] then [[]]
  else [encodeSegment collection, encodeSegment name]

theorem follow_name (before : List (List Char)) (collection name : List Char) :
    follow (encodeSegment collection :: before) (encodeSegment name) true =
      (reached collection name).reverse ++ before := by
  by_cases hPoint : name = ['.']
  · rw [hPoint]
    rfl
  · by_cases hPoints : name = ['.', '.']
    · rw [hPoints]
      rfl
    · rw [follow_encodeSegment hPoint hPoints, reached, if_neg hPoint, if_neg hPoints]
      rfl

theorem mem_reached {collection name part : List Char} (h : part ∈ reached collection name) :
    Escaped part := by
  rw [reached] at h
  split_ifs at h <;> simp only [List.mem_cons, List.not_mem_nil, or_false] at h
  · rcases h with rfl | rfl
    · exact escaped_encodeSegment collection
    · exact .nil
  · rw [h]
    exact .nil
  · rcases h with rfl | rfl
    · exact escaped_encodeSegment collection
    · exact escaped_encodeSegment name

/-- A collection and a name are read below the path of a service as where they lead to from there. -/
theorem read?_named {collection : List Char} (hBase : HasNoQuery base)
    (h : read? (base ++ ['/']) = some ⟨dir ++ [[]], none⟩) (hCollection : IsOrdinary collection)
    (name : List Char) :
    read? (base ++ '/' :: (encodeSegment collection ++ '/' :: encodeSegment name)) =
      some ⟨dir ++ reached collection name, none⟩ := by
  obtain ⟨before, hBelow⟩ := exists_read?_below hBase h
  have hPlain : ∀ s, ∀ c ∈ encodeSegment s, IsBelow c ∧ isSlash c = false := fun s _ hc =>
    isBelow_of_escaped (escaped_encodeSegment s) hc
  have hRest : ∀ c ∈ encodeSegment collection ++ '/' :: encodeSegment name, IsBelow c := by
    intro c hc
    rcases List.mem_append.mp hc with hc | hc
    · exact (hPlain _ c hc).1
    · rcases List.mem_cons.mp hc with rfl | hc
      · exact ⟨rfl, by decide⟩
      · exact (hPlain _ c hc).1
  have hParts : (encodeSegment collection ++ '/' :: encodeSegment name).splitOnP isSlash =
      [encodeSegment collection, encodeSegment name] := by
    rw [List.splitOnP_append_cons_of_forall_mem (fun c hc => (hPlain _ c hc).2) _ (by rfl),
      List.splitOnP_eq_singleton fun c hc => (hPlain _ c hc).2]
  have hFollow : followAll before [encodeSegment collection, encodeSegment name] =
      (reached collection name).reverse ++ before := by
    rw [followAll, followAll, follow_encodeSegment hCollection.ne_point hCollection.ne_points,
      follow_name]
    exact fun h => List.cons_ne_nil _ _ h
  have hKept : (reached collection name).map (percentEncode isPathChar) = reached collection name := by
    refine (List.map_congr_left fun part hPart => ?_).trans (List.map_id _)
    exact percentEncode_eq_self fun c hc => (isBelow_of_escaped (mem_reached hPart) hc).1.1
  -- With nothing behind the slash, what has been followed before is the path of the service.
  have hDir : before.reverse.map (percentEncode isPathChar) = dir := by
    have hHere : followAll before (([] : List Char).splitOnP isSlash) = [] :: before := rfl
    have hPath := (hBelow [] (List.forall_mem_nil _)).symm.trans h
    rw [hHere, List.reverse_cons, List.map_append] at hPath
    exact List.append_cancel_right (congrArg Address.path (Option.some.inj hPath))
  rw [hBelow _ hRest, hParts, hFollow, List.reverse_append, List.reverse_reverse, List.map_append, hDir,
    hKept]

end FormulaOutline.Http.Address
